import IUBPatch.Formats.UPSReplay

/-! # UPS decoding of UPS encodings

The encoder of the format, and the loader of the source run on what it writes. The format moves its
cursor over the position that the zero behind a run stands for; the loader does not, so it places the
runs of a patch earlier and earlier, each by one position more than the one before. -/

namespace IUBPatch.UPS

/-! ### The encoder -/

/-- The XOR of the two files, position by position, with zeros past the end of the shorter. -/
def difference (S T : Bytes) : Bytes :=
  (List.range (max S.length T.length)).map fun i => S.getD i 0 ^^^ T.getD i 0

/-- The maximal runs of non-zero bytes of the difference. -/
def hunks (S T : Bytes) : List (Run Byte) := Run.runs 0 0 (difference S T)

/-- The bytes of the hunks, from a cursor on: the distance to the run, its bytes, and a zero, which
moves the cursor one position past the end of the run. -/
def encodeHunks : (cursor : Nat) → List (Run Byte) → Bytes
  | _, [] => []
  | cursor, run :: rest =>
    encodeNum (run.start - cursor) ++ (run.data ++ (0 :: encodeHunks (run.stop + 1) rest))

/-- The patch from `S` to `T` before its own checksum. -/
def encodeBody (S T : Bytes) : Bytes :=
  upsMagic ++ (encodeNum S.length ++ (encodeNum T.length ++ (encodeHunks 0 (hunks S T)
    ++ (uint32Bytes (calcCrc32 S) ++ uint32Bytes (calcCrc32 T)))))

/-- The patch from `S` to `T`. -/
def encode (S T : Bytes) : Bytes := encodeBody S T ++ uint32Bytes (calcCrc32 (encodeBody S T))

/-! ### The loader on what the encoder wrote -/

/-- The blocks the loader makes of runs: each start falls back by the number of zeros before it. -/
def laggedBlocks : (lag : Nat) → List (Run Byte) → List XORBlock
  | _, [] => []
  | lag, run :: rest => ⟨UInt64.ofNat (run.start - lag), run.data⟩ :: laggedBlocks (lag + 1) rest

/-- The inner loop reads a run up to the zero behind it, and counts the run alone. -/
theorem xorDataLoop_append {data : Bytes} (hdata : ∀ b ∈ data, b ≠ 0) (rest : Bytes) (offset : Nat)
    (fileOffset : UInt64) (done : Bytes) :
    xorDataLoop (data ++ 0 :: rest) offset fileOffset done
      = (done ++ data, offset + data.length + 1, fileOffset + UInt64.ofNat data.length) := by
  have htaken : (data ++ 0 :: rest).takeWhile (· ≠ 0) = data := by
    rw [List.takeWhile_append_of_pos (by simpa using hdata), List.takeWhile_cons_of_neg (by simp),
      List.append_nil]
  have hlength : xorDataLength (data ++ 0 :: rest) = data.length + 1 := by
    rw [xorDataLength_eq, htaken, if_pos (by simp)]
  rw [xorDataLoop_eq, htaken, hlength, Nat.add_assoc]

/-- What is unread of the part before the last twelve bytes. -/
theorem drop_take_of_drop {data front footer : Bytes} {offset : Nat} (hfooter : footer.length = 12)
    (h : data.drop offset = front ++ footer) :
    (data.take (data.length - 12)).drop offset = front := by
  have hne : front ++ footer ≠ [] := by
    intro hnil
    have := congrArg List.length hnil
    simp [hfooter] at this
  have hlength := length_of_drop h hne
  rw [List.length_append] at hlength
  rw [List.drop_take, h, List.take_left' (by omega)]

/-- The loader reads one hunk back where its bytes stand. -/
theorem parseBlock_of_drop {patchData run more footer : Bytes} {offset distance : Nat}
    (hrun : ∀ b ∈ run, b ≠ 0) (hfooter : footer.length = 12)
    (h : patchData.drop offset = encodeNum distance ++ (run ++ (0 :: (more ++ footer))))
    (fileOffset : UInt64) :
    parseBlock patchData offset fileOffset
      = (⟨fileOffset + UInt64.ofNat distance, run⟩,
          offset + (encodeNum distance).length + run.length + 1,
          fileOffset + UInt64.ofNat distance + UInt64.ofNat run.length) := by
  have hbytes : patchData.drop (offset + (encodeNum distance).length)
      = (run ++ 0 :: more) ++ footer := by
    rw [drop_add_of_drop h]; simp
  rw [parseBlock, decodeVariableLen_eq_decodeBpsNum, decodeBpsNum_of_drop h]
  dsimp only
  rw [drop_take_of_drop hfooter hbytes, xorDataLoop_append hrun]
  rfl

/-- **The loop on the hunks of an encoder**: it reads them all, and places each as many positions early
as zeros were read before it. -/
theorem parseBlocks_of_drop {patchData footer : Bytes} (hfooter : footer.length = 12)
    {rs : List (Run Byte)} {cursor lag offset : Nat} (hruns : Run.Separated 0 cursor rs)
    (hlag : lag ≤ cursor) (h : patchData.drop offset = encodeHunks cursor rs ++ footer) :
    parseBlocks patchData offset (UInt64.ofNat (cursor - lag)) = laggedBlocks lag rs := by
  induction rs generalizing cursor lag offset with
  | nil =>
    have hend := length_of_drop h (by
      intro hnil; have := congrArg List.length hnil; simp [hfooter, encodeHunks] at this)
    rw [encodeHunks, List.nil_append, hfooter] at hend
    rw [parseBlocks, if_neg (by omega), laggedBlocks]
  | cons run rest ih =>
    obtain ⟨hstart, hne, hdata, hrest⟩ := hruns
    rw [encodeHunks, List.append_assoc, List.append_assoc, List.cons_append] at h
    have hnext := drop_add_of_drop (drop_add_of_drop h)
    have hpos := length_encodeNum_pos (run.start - cursor)
    have hlength := length_of_drop h (by simp)
    simp only [List.length_append, List.length_cons, hfooter] at hlength
    -- the start comes out early by the lag, and the zero behind the run adds one to it
    have hoffset : UInt64.ofNat (cursor - lag) + UInt64.ofNat (run.start - cursor)
        = UInt64.ofNat (run.start - lag) := by
      rw [← UInt64.ofNat_add]; congr 1; omega
    have hafter : UInt64.ofNat (run.start - lag) + UInt64.ofNat run.data.length
        = UInt64.ofNat (run.stop + 1 - (lag + 1)) := by
      rw [← UInt64.ofNat_add, Run.stop]; congr 1; omega
    rw [parseBlocks, if_pos (by omega), parseBlock_of_drop hdata hfooter h]
    dsimp only
    rw [hoffset, hafter, if_neg (by simpa using hne), laggedBlocks]
    congr 1
    apply ih hrest (by rw [Run.stop]; omega)
    rw [← List.drop_drop, hnext, List.drop_one, List.tail_cons]

/-- The number of bytes before the footer, and the footer itself. -/
theorem drop_length_sub {front footer : Bytes} (hfooter : footer.length = 12) :
    (front ++ footer).drop ((front ++ footer).length - 12) = footer := by
  rw [List.length_append, hfooter, Nat.add_sub_cancel, List.drop_left]

/-- **An encoding loads**, with the sizes and the checksums of the two files, and with the lagged
blocks in place of the hunks. -/
theorem load_encode (S T : Bytes) :
    ∃ patch, UPSPatch.load (encode S T) = .ok patch ∧ patch.srcSize = UInt64.ofNat S.length ∧
      patch.targetSize = UInt64.ofNat T.length ∧ patch.blocks = laggedBlocks 0 (hunks S T) ∧
      patch.srcCrc = calcCrc32 S ∧ patch.targetCrc = calcCrc32 T := by
  -- the file as its parts, with the twelve bytes of the footer at the end
  set footer := uint32Bytes (calcCrc32 S) ++ (uint32Bytes (calcCrc32 T)
    ++ uint32Bytes (calcCrc32 (encodeBody S T))) with hfooterDef
  have hfooter : footer.length = 12 := by simp [hfooterDef]
  have hparts : encode S T = upsMagic ++ (encodeNum S.length ++ (encodeNum T.length
      ++ (encodeHunks 0 (hunks S T) ++ footer))) := by
    rw [encode]
    nth_rewrite 1 [encodeBody]
    simp [hfooterDef]
  have hsrc : (encode S T).drop upsHeaderSize = encodeNum S.length ++ (encodeNum T.length
      ++ (encodeHunks 0 (hunks S T) ++ footer)) := by
    rw [hparts]; exact List.drop_left' rfl
  have htarget := drop_add_of_drop hsrc
  have hhunks := drop_add_of_drop htarget
  have hmagic : (encode S T).take upsHeaderSize = upsMagic := by
    rw [hparts]; exact List.take_left' rfl
  have hlong : ¬ (encode S T).length < upsHeaderSize + 12 := by
    rw [hparts]; simp [upsMagic, upsHeaderSize, hfooter]; omega
  have hcrc : (encode S T).drop ((encode S T).length - 12) = footer := by
    have hfront : encode S T = (upsMagic ++ (encodeNum S.length ++ (encodeNum T.length
        ++ encodeHunks 0 (hunks S T)))) ++ footer := by rw [hparts]; simp
    rw [hfront, drop_length_sub hfooter]
  have hblocks := parseBlocks_of_drop hfooter (Run.separated_runs 0 (difference S T))
    (Nat.le_refl 0) hhunks
  rw [UPSPatch.load_eq hlong hmagic, UPSPatch.parse, if_neg hlong, decodeVariableLen_eq_decodeBpsNum,
    decodeBpsNum_of_drop hsrc]
  dsimp only
  rw [decodeBpsNum_of_drop htarget]
  exact ⟨_, rfl, rfl, rfl, hblocks, uint32At_of_drop hcrc,
    uint32At_of_drop (drop_add_of_drop hcrc)⟩

/-! ### What the lag does to the output -/

/-- The runs the lagged blocks cover. -/
def laggedRuns : (lag : Nat) → List (Run Byte) → List (Run Byte)
  | _, [] => []
  | lag, run :: rest => ⟨run.start - lag, run.data⟩ :: laggedRuns (lag + 1) rest

/-- The blocks cover the lagged runs, for positions a word can hold. -/
theorem map_run_laggedBlocks {lag : Nat} {rs : List (Run Byte)}
    (hfit : ∀ run ∈ rs, run.start < 2 ^ 64) :
    (laggedBlocks lag rs).map XORBlock.run = laggedRuns lag rs := by
  induction rs generalizing lag with
  | nil => rfl
  | cons run rest ih =>
    have hstart := hfit run (by simp)
    rw [laggedBlocks, List.map_cons, ih (fun r hr => hfit r (by simp [hr])), laggedRuns,
      XORBlock.run, UInt64.toNat_ofNat', Nat.mod_eq_of_lt (by omega)]

/-- Separated runs fall back by no more than the distance they keep. -/
theorem le_start_laggedRuns {lower lag : Nat} {rs : List (Run Byte)}
    (hruns : Run.Separated 0 lower rs) (hlag : lag ≤ lower) {run : Run Byte}
    (hmem : run ∈ laggedRuns lag rs) : lower - lag ≤ run.start := by
  induction rs generalizing lower lag with
  | nil => cases hmem
  | cons first rest ih =>
    obtain ⟨hstart, -, -, hrest⟩ := hruns
    rcases List.mem_cons.mp hmem with rfl | hmem
    · exact Nat.sub_le_sub_right hstart lag
    · have := ih hrest (by rw [Run.stop]; omega) hmem
      rw [Run.stop] at this
      omega

/-- **Where the lag cannot be seen.** Below a limit the lagged runs show what the runs do exactly when
every run but the first starts past the limit: the second run, one position early, puts a non-zero
byte where the difference has the zero in front of it. -/
theorem overlay_laggedRuns_iff {rs : List (Run Byte)} (hruns : Run.Separated 0 0 rs) (limit : Nat) :
    (∀ i < limit, Run.overlay 0 (· ^^^ ·) (laggedRuns 0 rs) i = Run.overlay 0 (· ^^^ ·) rs i) ↔
      ∀ run ∈ rs.tail, limit < run.start := by
  cases rs with
  | nil => simp [laggedRuns]
  | cons first rest =>
    obtain ⟨-, -, -, hrest⟩ := hruns
    simp only [laggedRuns, Run.overlay_cons, List.tail_cons, Nat.sub_zero, Nat.zero_add]
    constructor
    · intro hagree run hmem
      cases rest with
      | nil => cases hmem
      | cons second rest =>
        obtain ⟨hstart, hne, hdata, htail⟩ := hrest
        have hfrom : Run.Separated 0 second.start (second :: rest) :=
          ⟨Nat.le_refl _, hne, hdata, htail⟩
        have hfollow := hfrom.le_start hmem
        by_contra hlimit
        -- the position in front of the second run
        set i := second.start - 1 with hi
        have hbefore : i < second.start := by omega
        have hagree := hagree i (by omega)
        have hshown : Run.overlay (0 : Byte) (· ^^^ ·) (second :: rest) i = 0 :=
          Run.overlay_eq_zero fun r hr => Nat.lt_of_lt_of_le hbefore (hfrom.le_start hr)
        -- the runs behind it fall back further, but not onto this position
        have hlater : Run.overlay (0 : Byte) (· ^^^ ·) (laggedRuns 2 rest) i = 0 := by
          apply Run.overlay_eq_zero
          intro r hr
          have hlag := le_start_laggedRuns htail (by rw [Run.stop]; omega) hr
          have hlength := List.length_pos_iff.mpr hne
          rw [Run.stop] at hlag
          omega
        -- so the first byte of the second run is left over there
        obtain ⟨b, data, hcons⟩ := List.exists_cons_of_ne_nil hne
        have hb : b ≠ 0 := hdata b (by rw [hcons]; simp)
        rw [hshown, laggedRuns, Run.overlay_cons, hlater, hcons, ← hi, Run.valueAt_start] at hagree
        have hcancel : b ^^^ 0 = 0 := (UInt8.xor_right_inj _).mp hagree
        exact hb (by simpa using hcancel)
    -- nothing but the first run reaches below the limit, and that has no lag
    · intro hpast i hi
      have hshown : Run.overlay (0 : Byte) (· ^^^ ·) rest i = 0 :=
        Run.overlay_eq_zero fun r hr => lt_trans hi (hpast r hr)
      have hlagged : Run.overlay (0 : Byte) (· ^^^ ·) (laggedRuns 1 rest) i = 0 := by
        apply Run.overlay_eq_zero
        intro r hr
        cases rest with
        | nil => cases hr
        | cons second rest =>
          have hsecond := hpast second (by simp)
          obtain ⟨-, hkept⟩ := hrest
          have hfrom : Run.Separated 0 second.start (second :: rest) := ⟨Nat.le_refl _, hkept⟩
          have hlag := le_start_laggedRuns hfrom (by omega) hr
          omega
      rw [hshown, hlagged]

/-! ### The round trip -/

/-- The hunks show the XOR of the two files. -/
theorem overlay_hunks {S T : Bytes} {i : Nat} (hi : i < T.length) :
    Run.overlay 0 (· ^^^ ·) (hunks S T) i = S.getD i 0 ^^^ T.getD i 0 := by
  have hlength : i < (difference S T).length := by simp [difference, hi]
  rw [hunks, Run.overlay_runs, Run.valueAt, if_pos (Nat.zero_le i), Nat.sub_zero,
    List.getD_eq_getElem _ _ hlength]
  simp [difference]

theorem xor_eq_iff (a m t : Byte) : a ^^^ m = t ↔ m = a ^^^ t := by
  constructor
  · rintro rfl; rw [← UInt8.xor_assoc, UInt8.xor_self, UInt8.zero_xor]
  · rintro rfl; rw [← UInt8.xor_assoc, UInt8.xor_self, UInt8.zero_xor]

/-- The target of a patch with the declared size of `T` is `T` exactly when its mask is the XOR of the
two files. -/
theorem target_eq_iff {patch : UPSPatch} {S T : Bytes} (hsize : patch.targetSize.toNat = T.length) :
    patch.target S = T ↔
      ∀ i < T.length, mask patch.blocks i = Run.overlay 0 (· ^^^ ·) (hunks S T) i := by
  have hbyte : ∀ i < T.length, (S.getD i 0 ^^^ mask patch.blocks i = T.getD i 0 ↔
      mask patch.blocks i = Run.overlay 0 (· ^^^ ·) (hunks S T) i) := by
    intro i hi
    rw [overlay_hunks hi, xor_eq_iff]
  constructor
  · intro h i hi
    have htarget : (patch.target S).getD i 0 = T.getD i 0 := by rw [h]
    rw [UPSPatch.target, hsize, List.getD_eq_getElem _ _ (by simpa using hi)] at htarget
    simp only [List.getElem_map, List.getElem_range] at htarget
    exact (hbyte i hi).mp htarget
  · intro h
    apply List.ext_getElem
    · rw [UPSPatch.length_target, hsize]
    · intro i _ hi
      have htarget := (hbyte i hi).mpr (h i hi)
      rw [List.getD_eq_getElem T _ hi] at htarget
      simp only [UPSPatch.target, List.getElem_map, List.getElem_range]
      exact htarget

/-- **Where UPS decoding undoes UPS encoding.** For files that fit a vector, the encoding of `T`
against `S` loads and applies to `S` as `T`, checksums verified or not, exactly when every run of the
difference but the first starts past the end of `T`. -/
theorem load_apply_encode_iff {S T : Bytes} (hS : S.length ≤ maxSize) (hT : T.length ≤ maxSize)
    (options : PatchOptions) :
    (∃ patch, UPSPatch.load (encode S T) = .ok patch ∧ patch.apply S options = .ok T) ↔
      ∀ run ∈ (hunks S T).tail, T.length < run.start := by
  obtain ⟨patch, hload, hsrcSize, htargetSize, hblocks, hsrcCrc, htargetCrc⟩ := load_encode S T
  have htarget : patch.targetSize.toNat = T.length := by
    rw [htargetSize]; exact toNat_size hT
  have hfit : ∀ run ∈ hunks S T, run.start < 2 ^ 64 := by
    intro run hrun
    have hstop := Run.stop_le_of_mem_runs hrun
    simp only [Run.stop, difference, List.length_map, List.length_range] at hstop
    unfold maxSize at hS hT
    omega
  have hmask : ∀ i, mask patch.blocks i
      = Run.overlay 0 (· ^^^ ·) (laggedRuns 0 (hunks S T)) i := by
    intro i
    rw [mask, hblocks, map_run_laggedBlocks hfit]
  -- the source checks pass, and the target check passes wherever the bytes are right
  have happly : patch.apply S options = .ok T ↔ patch.target S = T := by
    rw [UPSPatch.apply_eq hS (htarget.trans_le hT), if_neg (by simp [hsrcSize, size]),
      if_neg (by simp [hsrcCrc])]
    constructor
    · intro h
      split at h
      · cases h
      · exact Outcome.ok.inj h
    · intro h
      rw [h, if_neg (by simp [htargetCrc])]
  have hseparated : Run.Separated 0 0 (hunks S T) := Run.separated_runs 0 _
  rw [← overlay_laggedRuns_iff hseparated T.length]
  simp only [← hmask]
  rw [← target_eq_iff htarget, ← happly]
  constructor
  · rintro ⟨patch', hload', happly'⟩
    rw [hload] at hload'
    cases hload'
    exact happly'
  · intro h
    exact ⟨patch, hload, h⟩

/-- Two files that differ in the first and the last of three bytes: the second hunk lands one position
early, and the target check rejects the output. -/
theorem not_load_apply_encode :
    ¬ ∃ patch, UPSPatch.load (encode [0, 0, 0] [1, 0, 1]) = .ok patch ∧
      patch.apply [0, 0, 0] {} = .ok [1, 0, 1] := by
  rintro ⟨patch, hload, happly⟩
  have hrun : (do
      let patch ← Outcome.ofExcept (UPSPatch.load (encode [0, 0, 0] [1, 0, 1]))
      patch.apply [0, 0, 0] {} : Call Bytes) = .ok [1, 0, 1] := by
    rw [hload]; exact happly
  revert hrun
  decide +kernel

/-- A file cut to one byte: the second hunk lies past the end of the target. -/
theorem load_apply_encode_truncated :
    ∃ patch, UPSPatch.load (encode [0, 0, 0, 7] [1]) = .ok patch ∧
      patch.apply [0, 0, 0, 7] {} = .ok [1] :=
  (load_apply_encode_iff (by decide) (by decide) {}).mpr (by decide)

end IUBPatch.UPS
