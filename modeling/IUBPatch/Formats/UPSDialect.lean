import IUBPatch.Crc32Residue
import IUBPatch.FileEffects
import IUBPatch.Formats.UPSOrder
import IUBPatch.Formats.UPSRoundTrip

/-! # The UPS dialect of the loader

What a writer has to put into a file for this loader to read it back: a hunk begins where the data of
the hunk in front of it ends, for the zero between them takes up no position. In this dialect every
list of hunks is read back, and every pair of files has a patch. -/

namespace IUBPatch.UPS

/-! ### Serialisation -/

/-- What a UPS file holds. -/
structure Content where
  srcSize : UInt64
  targetSize : UInt64
  hunks : List Hunk
  srcCrc : UInt32
  targetCrc : UInt32

namespace Content

/-- The file up to its own checksum. -/
def body (content : Content) : Bytes :=
  upsMagic ++ (encodeNum content.srcSize.toNat ++ (encodeNum content.targetSize.toNat
    ++ (content.hunks.flatMap Hunk.encode
    ++ (uint32Bytes content.srcCrc ++ uint32Bytes content.targetCrc))))

/-- The file. -/
def serialize (content : Content) : Bytes :=
  content.body ++ uint32Bytes (calcCrc32 content.body)

/-- What the loader makes of the file. -/
def patch (content : Content) : UPSPatch where
  patchData := content.serialize
  srcSize := content.srcSize
  targetSize := content.targetSize
  srcCrc := content.srcCrc
  targetCrc := content.targetCrc
  patchCrc := calcCrc32 content.body
  blocks := placeHunks 0 content.hunks

end Content

/-- The loader reads a hunk back where its bytes stand. -/
theorem readHunk_of_drop {data more footer : Bytes} {offset : Nat} (hunk : Hunk)
    (hfooter : footer.length = 12) (h : data.drop offset = hunk.encode ++ (more ++ footer)) :
    readHunk data offset = hunk ∧ hunkEnd data offset = offset + hunk.encode.length := by
  have hnumber : data.drop offset
      = encodeNum hunk.relativeOffset.toNat ++ ((hunk.data ++ 0 :: more) ++ footer) := by
    rw [h, Hunk.encode]; simp
  have hdecoded : decodeVariableLen data offset
      = (hunk.relativeOffset, offset + (encodeNum hunk.relativeOffset.toNat).length) := by
    rw [decodeVariableLen_eq_decodeBpsNum, decodeBpsNum_of_drop hnumber, UInt64.ofNat_toNat]
  have hbytes : hunkBytes data (offset + (encodeNum hunk.relativeOffset.toNat).length)
      = hunk.data ++ 0 :: more := drop_take_of_drop hfooter (drop_add_of_drop hnumber)
  -- the run of the hunk ends at its zero, since it has none of its own
  have htaken : (hunk.data ++ 0 :: more).takeWhile (· ≠ 0) = hunk.data := by
    rw [List.takeWhile_append_of_pos (by simpa using hunk.nonzero),
      List.takeWhile_cons_of_neg (by simp), List.append_nil]
  constructor
  -- the offset and the run, and behind the zero the place where the next hunk begins
  · obtain ⟨relativeOffset, run, nonzero⟩ := hunk
    simp only [readHunk, hdecoded, hbytes, htaken]
  · rw [hunkEnd, hdecoded, hbytes, xorDataLength_eq, htaken, if_pos (by simp), Hunk.encode,
      List.length_append, List.length_append, List.length_singleton]
    omega

/-- **The loop on hunks** reads them all back. -/
theorem readHunks_of_drop {data footer : Bytes} (hfooter : footer.length = 12) {hunks : List Hunk}
    {offset : Nat} (h : data.drop offset = hunks.flatMap Hunk.encode ++ footer) :
    readHunks data offset = hunks := by
  induction hunks generalizing offset with
  | nil =>
    rcases footer_or_word_of_drop Hunk.length_encode_pos hfooter h with ⟨-, hend⟩ | ⟨_, _, hcons, -⟩
    · rw [readHunks, if_neg (by omega)]
    · cases hcons
  | cons hunk hunks ih =>
    rcases footer_or_word_of_drop Hunk.length_encode_pos hfooter h with
      ⟨hnil, -⟩ | ⟨_, _, hcons, hrunning, -, hdrop⟩
    · cases hnil
    · cases hcons
      obtain ⟨hread, hend⟩ := readHunk_of_drop hunk hfooter hdrop
      rw [readHunks, if_pos hrunning, hread, hend, ih (drop_add_of_drop hdrop)]

/-- The parts of a serialised file, as the loader comes upon them. -/
structure Content.Laid (content : Content) (P : Bytes) : Prop where
  long : ¬ P.length < upsHeaderSize + 12
  magic : P.take upsHeaderSize = upsMagic
  srcSize : decodeBpsNum P upsHeaderSize
    = (content.srcSize, upsHeaderSize + (encodeNum content.srcSize.toNat).length)
  targetSize : decodeBpsNum P (upsHeaderSize + (encodeNum content.srcSize.toNat).length)
    = (content.targetSize, hunksOffset P)
  hunks : readHunks P (hunksOffset P) = content.hunks
  srcCrc : uint32At P (P.length - 12) = content.srcCrc
  targetCrc : uint32At P (P.length - 12 + 4) = content.targetCrc
  patchCrc : uint32At P (P.length - 12 + 8) = calcCrc32 content.body

/-- The loader comes upon the parts where the serialisation put them. -/
theorem Content.laid_serialize (content : Content) : content.Laid content.serialize := by
  set footer := uint32Bytes content.srcCrc ++ (uint32Bytes content.targetCrc
    ++ uint32Bytes (calcCrc32 content.body)) with hfooterDef
  have hfooter : footer.length = 12 := by simp [hfooterDef]
  have hparts : content.serialize = upsMagic ++ (encodeNum content.srcSize.toNat
      ++ (encodeNum content.targetSize.toNat ++ (content.hunks.flatMap Hunk.encode ++ footer))) := by
    rw [serialize]
    nth_rewrite 1 [body]
    simp [hfooterDef]
  have hsrc : content.serialize.drop upsHeaderSize = encodeNum content.srcSize.toNat
      ++ (encodeNum content.targetSize.toNat ++ (content.hunks.flatMap Hunk.encode ++ footer)) := by
    rw [hparts]; exact List.drop_left' rfl
  have htarget := drop_add_of_drop hsrc
  have hhunks := drop_add_of_drop htarget
  -- the three checksums are found from the end of the file
  have hcrc : content.serialize.drop (content.serialize.length - 12) = footer := by
    have hfront : content.serialize = (upsMagic ++ (encodeNum content.srcSize.toNat
        ++ (encodeNum content.targetSize.toNat ++ content.hunks.flatMap Hunk.encode))) ++ footer := by
      rw [hparts]; simp
    rw [hfront, drop_length_sub hfooter]
  have hsrcSize : decodeBpsNum content.serialize upsHeaderSize
      = (content.srcSize, upsHeaderSize + (encodeNum content.srcSize.toNat).length) := by
    rw [decodeBpsNum_of_drop hsrc, UInt64.ofNat_toNat]
  have hoffset : hunksOffset content.serialize = upsHeaderSize
      + (encodeNum content.srcSize.toNat).length + (encodeNum content.targetSize.toNat).length := by
    rw [hunksOffset, decodeVariableLen_eq_decodeBpsNum, hsrcSize, decodeBpsNum_of_drop htarget]
  -- the last word has nothing behind it
  have hlast := drop_add_of_drop (drop_add_of_drop hcrc)
  rw [← List.append_nil (uint32Bytes (calcCrc32 content.body))] at hlast
  exact
    { long := by
        rw [hparts]
        simp only [List.length_append, hfooter, upsMagic, upsHeaderSize, List.length_cons,
          List.length_nil]
        omega
      magic := by rw [hparts]; exact List.take_left' rfl
      srcSize := hsrcSize
      targetSize := by rw [decodeBpsNum_of_drop htarget, UInt64.ofNat_toNat, hoffset]
      hunks := by rw [hoffset]; exact readHunks_of_drop hfooter hhunks
      srcCrc := uint32At_of_drop hcrc
      targetCrc := uint32At_of_drop (drop_add_of_drop hcrc)
      patchCrc := uint32At_of_drop hlast }

/-- A file that holds a content loads as its patch. -/
theorem Content.Laid.load {content : Content} {P : Bytes} (h : content.Laid P) :
    UPSPatch.load P = .ok
      { content.patch with patchData := P } := by
  rw [UPSPatch.load_eq h.long h.magic, UPSPatch.parse, if_neg h.long,
    decodeVariableLen_eq_decodeBpsNum, h.srcSize]
  dsimp only
  rw [h.targetSize, parseBlocks_eq, h.hunks, h.srcCrc, h.targetCrc, h.patchCrc]
  rfl

/-- A serialised content loads as its patch, and that is valid. -/
theorem load_serialized (content : Content) :
    loadPatchFromMemory content.serialize = .ok (.ups content.patch) ∧
      content.patch.validate = .ok () := by
  have hloaded : UPSPatch.load content.serialize = .ok content.patch := content.laid_serialize.load
  refine ⟨loadPatchFromMemory_eq_ok_iff.mpr hloaded, ?_⟩
  rcases UPSPatch.validate_cases hloaded with ⟨-, hvalid⟩ | ⟨hresidue, -⟩
  · exact hvalid
  · exact absurd ((calcCrc32_append_eq_residue_iff _ _).mpr rfl) hresidue

/-- Twelve bytes are those of three words. -/
theorem exists_words {footer : Bytes} (h : footer.length = 12) :
    ∃ a b c, footer = uint32Bytes a ++ (uint32Bytes b ++ uint32Bytes c) := by
  have hfirst : (footer.take 4).length = 4 := by rw [List.length_take, h]; rfl
  have hsecond : ((footer.drop 4).take 4).length = 4 := by
    rw [List.length_take, List.length_drop, h]; rfl
  have hthird : ((footer.drop 4).drop 4).length = 4 := by
    rw [List.length_drop, List.length_drop, h]
  refine ⟨UInt32.ofNat (littleEndian (footer.take 4)),
    UInt32.ofNat (littleEndian ((footer.drop 4).take 4)),
    UInt32.ofNat (littleEndian ((footer.drop 4).drop 4)), ?_⟩
  rw [uint32Bytes_littleEndian hfirst, uint32Bytes_littleEndian hsecond,
    uint32Bytes_littleEndian hthird, List.take_append_drop, List.take_append_drop]

/-- **A valid file is the serialisation of exactly one content.** For every byte string: it is a
well-formed UPS file that loads and is valid exactly if one content, and only one, serialises to it;
and then it loads as that content's patch. -/
theorem valid_iff_existsUnique_content (P : Bytes) :
    ((IsFile P ∧ ∃ patch, UPSPatch.load P = .ok patch ∧ patch.validate = .ok ()) ↔
        ∃! content : Content, P = content.serialize) ∧
      ∀ content : Content, P = content.serialize →
        loadPatchFromMemory P = .ok (.ups content.patch) := by
  refine ⟨⟨?_, ?_⟩, ?_⟩
  · rintro ⟨⟨srcSize, targetSize, hunks, footer, hfooter, hparts⟩, patch, hload, hvalid⟩
    obtain ⟨srcCrc, targetCrc, patchCrc, rfl⟩ := exists_words hfooter
    set content : Content := ⟨srcSize, targetSize, hunks, srcCrc, targetCrc⟩ with hcontent
    have hbody : P = content.body ++ uint32Bytes patchCrc := by
      rw [hparts, Content.body, hcontent]
      simp only [List.append_assoc]
    -- the file is valid, so the word behind the body is its checksum
    have hresidue : calcCrc32 P = crc32Residue := by
      rcases UPSPatch.validate_cases hload with ⟨h, -⟩ | ⟨-, e, he, -⟩
      · exact h
      · rw [hvalid] at he; cases he
    rw [hbody, calcCrc32_append_eq_residue_iff] at hresidue
    have hserialize : P = content.serialize := by rw [hbody, Content.serialize, hresidue]
    refine ⟨content, hserialize, fun other hother => ?_⟩
    -- both contents are what the loader finds in the one file, part by part
    have hlaid := content.laid_serialize
    have holaid := other.laid_serialize
    rw [← hserialize] at hlaid
    rw [← hother] at holaid
    have hsrcSize : other.srcSize = content.srcSize :=
      congrArg Prod.fst (holaid.srcSize.symm.trans hlaid.srcSize)
    have htargetSize : other.targetSize = content.targetSize := by
      have htarget := holaid.targetSize
      rw [hsrcSize] at htarget
      exact congrArg Prod.fst (htarget.symm.trans hlaid.targetSize)
    have hhunks : other.hunks = content.hunks := holaid.hunks.symm.trans hlaid.hunks
    have hsrcCrc : other.srcCrc = content.srcCrc := holaid.srcCrc.symm.trans hlaid.srcCrc
    have htargetCrc : other.targetCrc = content.targetCrc :=
      holaid.targetCrc.symm.trans hlaid.targetCrc
    cases other
    exact Content.mk.injEq .. ▸ ⟨hsrcSize, htargetSize, hhunks, hsrcCrc, htargetCrc⟩
  · rintro ⟨content, rfl, -⟩
    obtain ⟨hload, hvalid⟩ := load_serialized content
    refine ⟨⟨content.srcSize, content.targetSize, content.hunks, uint32Bytes content.srcCrc
      ++ (uint32Bytes content.targetCrc ++ uint32Bytes (calcCrc32 content.body)), rfl, ?_⟩,
      content.patch, loadPatchFromMemory_eq_ok_iff.mp hload, hvalid⟩
    rw [Content.serialize]
    nth_rewrite 1 [Content.body]
    simp
  · rintro content rfl
    exact (load_serialized content).1

/-! ### A patch for every pair of files -/

/-- A run without zeros. -/
abbrev NonzeroRun := {run : Run Byte // ∀ b ∈ run.data, b ≠ 0}

/-- The hunks that put runs in their places: each is as far on as the run lies behind the end of the
one before. -/
def distances : (cursor : Nat) → List NonzeroRun → List Hunk
  | _, [] => []
  | cursor, run :: rest =>
    ⟨UInt64.ofNat (run.1.start - cursor), run.1.data, run.2⟩ :: distances run.1.stop rest

/-- The runs of the difference of two files, each with its lack of zeros. -/
def nonzeroRuns (S T : Bytes) : List NonzeroRun :=
  (hunks S T).attachWith _ fun _ hrun => (Run.separated_runs 0 (difference S T)).ne_zero hrun

/-- The patch from `S` to `T` in the dialect of the loader. -/
def between (S T : Bytes) : Content where
  srcSize := size S
  targetSize := size T
  hunks := distances 0 (nonzeroRuns S T)
  srcCrc := calcCrc32 S
  targetCrc := calcCrc32 T

/-- Runs that a word can place are placed where they lie. -/
theorem map_run_placeHunks {cursor : Nat} {rs : List NonzeroRun}
    (hruns : Run.Separated 0 cursor (rs.map Subtype.val)) (hfit : ∀ run ∈ rs, run.1.start < 2 ^ 64) :
    (placeHunks (UInt64.ofNat cursor) (distances cursor rs)).map XORBlock.run
      = rs.map Subtype.val := by
  induction rs generalizing cursor with
  | nil => rfl
  | cons run rest ih =>
    obtain ⟨hstart, hne, -, hrest⟩ := hruns
    have hhere := hfit run List.mem_cons_self
    -- in words the hunk's distance leads from the cursor to the run, and its length to the run's end
    have hoffset : UInt64.ofNat cursor + UInt64.ofNat (run.1.start - cursor)
        = UInt64.ofNat run.1.start := by
      rw [← UInt64.ofNat_add, Nat.add_sub_cancel' hstart]
    have hafter : UInt64.ofNat run.1.start + UInt64.ofNat run.1.data.length
        = UInt64.ofNat run.1.stop := by
      rw [← UInt64.ofNat_add, Run.stop]
    have hplaced : (⟨UInt64.ofNat run.1.start, run.1.data⟩ : XORBlock).run = run.1 := by
      rw [XORBlock.run, UInt64.toNat_ofNat', Nat.mod_eq_of_lt hhere]
    rw [distances, placeHunks]
    dsimp only
    rw [hoffset, hafter, if_neg (by simpa using hne), List.map_cons, List.map_cons, hplaced,
      ih (hrest.mono (Nat.le_succ _)) fun r hr => hfit r (List.mem_cons_of_mem run hr)]

/-- The mask of the patch between two files is their XOR. -/
theorem target_between {S T : Bytes} (hS : S.length ≤ maxSize) (hT : T.length ≤ maxSize) :
    (between S T).patch.target S = T := by
  have hvalues : (nonzeroRuns S T).map Subtype.val = hunks S T := by
    rw [nonzeroRuns, List.attachWith_map_subtype_val]
  -- the runs lie in the longer of the two files, so a word can place them
  have hfit : ∀ run ∈ nonzeroRuns S T, run.1.start < 2 ^ 64 := by
    intro run hrun
    have hmem : run.1 ∈ hunks S T := hvalues ▸ List.mem_map_of_mem hrun
    have hstop := Run.stop_le_of_mem_runs hmem
    simp only [Run.stop, difference, List.length_map, List.length_range] at hstop
    unfold maxSize at hS hT
    omega
  have hruns : Run.Separated 0 0 ((nonzeroRuns S T).map Subtype.val) :=
    hvalues ▸ Run.separated_runs 0 (difference S T)
  have hplaced := map_run_placeHunks hruns hfit
  refine (target_eq_iff (toNat_size hT)).mpr fun i _ => ?_
  show Run.overlay 0 _ ((placeHunks (UInt64.ofNat 0) (distances 0 (nonzeroRuns S T))).map
    XORBlock.run) i = _
  rw [hplaced, hvalues]

/-- The patch between two files turns the one into the other, verified or not. -/
theorem apply_between {S T : Bytes} (hS : S.length ≤ maxSize) (hT : T.length ≤ maxSize)
    (options : PatchOptions) : (between S T).patch.apply S options = .ok T := by
  have htarget : (between S T).patch.targetSize.toNat ≤ maxSize := (toNat_size hT).trans_le hT
  rw [UPSPatch.apply_eq hS htarget, target_between hS hT, if_neg fun hfail => hfail.2 rfl,
    if_neg fun hfail => hfail.2 rfl, if_neg fun hfail => hfail.2 rfl]

/-- **Every pair of files has a UPS patch.** For every source and target that fit a vector there is a
file that loads, is valid, and turns the source into the target with verification or without; and, if
they have one size, the target into the source without. On files: `validate_patch` accepts it for the
source, and `apply_patch` writes the target, and nothing else. -/
theorem between_turns {S T : Bytes} (hS : S.length ≤ maxSize) (hT : T.length ≤ maxSize) :
    ∃ patch, loadPatchFromMemory (between S T).serialize = .ok patch ∧ patch.validate = .ok () ∧
      (∀ options, patch.apply S options = .ok T) ∧
      (S.length = T.length →
        ∀ options : PatchOptions, options.verifyChecksums = false → patch.apply T options = .ok S) ∧
      ∀ (patchPath sourcePath outputPath : Path) (options : PatchOptions) (world : World),
        world.files patchPath = some (between S T).serialize → world.files sourcePath = some S →
          (validatePatch {} patchPath sourcePath options world).1 = .ok () ∧
          ∃ n, applyPatch {} patchPath sourcePath outputPath options world
            = (.ok (), ({ world with reads := n } : World).put outputPath T) := by
  obtain ⟨hload, hvalid⟩ := load_serialized (between S T)
  refine ⟨.ups (between S T).patch, hload, hvalid, apply_between hS hT, ?_, ?_⟩
  · intro hlength options hoff
    have htarget : (between S T).patch.targetSize.toNat = T.length := toNat_size hT
    -- XOR with one mask twice, on files of one size
    have hback : (between S T).patch.target ((between S T).patch.target S) = S :=
      UPSPatch.target_target (hlength.trans htarget.symm)
    rw [target_between hS hT] at hback
    show (between S T).patch.apply T options = .ok S
    rw [UPSPatch.apply_unverified (htarget.trans_le hT) hT hoff, hback]
  · intro patchPath sourcePath outputPath options world hpatch hsource
    constructor
    · rw [validatePatch_eq_ok_iff hload hvalid hpatch hsource]
      exact ⟨fun _ => rfl, rfl⟩
    · exact applyPatch_of_makes patchPath sourcePath outputPath options world
        ⟨_, _, S, hpatch, hload, hsource, apply_between hS hT options⟩

/-- Two hunks with one zero between them. -/
theorem between_turns_twoHunks :
    ∃ patch, loadPatchFromMemory (between [0, 0, 0] [1, 0, 1]).serialize = .ok patch ∧
      patch.validate = .ok () ∧ patch.apply [0, 0, 0] {} = .ok [1, 0, 1] := by
  obtain ⟨patch, hload, hvalid, happly, -⟩ :=
    between_turns (show ([0, 0, 0] : Bytes).length ≤ maxSize by decide)
      (show ([1, 0, 1] : Bytes).length ≤ maxSize by decide)
  exact ⟨patch, hload, hvalid, happly {}⟩

end IUBPatch.UPS
