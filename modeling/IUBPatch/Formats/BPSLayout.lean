import IUBPatch.Formats.BPSLoad
import IUBPatch.Lib.WhileLoop

/-! # Well-laid-out BPS patches

The loader checks the size and the magic of a patch, and that the metadata end within it. The numbers
and the command region are taken as they come: numbers without an end, numbers past 64 bits, metadata
and commands that reach into the checksums. -/

namespace IUBPatch.BPS

/-! ### Where the loader reads -/

/-- Where the loader reads the target size. -/
def targetSizeOffset (patchData : Bytes) : Nat := (decodeBpsNum patchData bpsHeaderSize).2

/-- Where the loader reads the size of the metadata. -/
def metadataSizeOffset (patchData : Bytes) : Nat :=
  (decodeBpsNum patchData (targetSizeOffset patchData)).2

/-- Where the loader reads the metadata. -/
def metadataOffset (patchData : Bytes) : Nat :=
  (decodeBpsNum patchData (metadataSizeOffset patchData)).2

/-- The size of the metadata, as the loader reads it from the header. -/
def declaredMetadataSize (P : Bytes) : UInt64 := (decodeBpsNum P (metadataSizeOffset P)).1

/-- Where the metadata of that size would end, as a natural number. -/
def metadataEnd (P : Bytes) : Nat := metadataOffset P + (declaredMetadataSize P).toNat

/-- The command loop of `parse` goes on from an offset. -/
def Running (patchData : Bytes) (offset : Nat) : Prop := offset + 12 < patchData.length

/-- The offset after one more turn of the command loop. -/
def turn (patchData : Bytes) (offset : Nat) : Nat := (parseCommand patchData offset).2

/-- The commands of a patch are what the loop reads at the offsets it goes on from. -/
theorem mem_parseCommands_iff {patchData : Bytes} {start : Nat} {command : Command} :
    command ∈ parseCommands patchData start ↔
      ∃ offset, WhileLoop.Visits (Running patchData) (turn patchData) start offset ∧
        Running patchData offset ∧ command = (parseCommand patchData offset).1 := by
  induction start using parseCommands.induct patchData with
  | case1 start hrunning ih =>
    rw [parseCommands, if_pos hrunning, List.mem_cons, ih]
    refine Iff.trans ?_ WhileLoop.exists_turn_iff.symm
    exact (and_iff_right hrunning).symm
  | case2 start hends =>
    rw [parseCommands, if_neg hends]
    refine Iff.trans ?_ WhileLoop.exists_turn_iff.symm
    exact iff_of_false List.not_mem_nil fun h => hends h.1

/-- The command read at an offset is well formed: its number is, and for a copy the second one too. -/
structure WellFormedCommand (patchData : Bytes) (offset : Nat) : Prop where
  encoded : WellFormedNumber patchData (patchData.length - 12) offset
  offsetDelta : (Action.ofEncoded (decodeBpsNum patchData offset).1).IsCopy →
    WellFormedNumber patchData (patchData.length - 12) (decodeBpsNum patchData offset).2

/-- The loader reads the bytes as a patch that is well laid out: the numbers of the header are well
formed and the sizes of the patch, the metadata are the bytes behind them and end before the last
twelve bytes, every command is well formed, and the last one ends where the last twelve bytes begin. -/
structure WellLaidOut (patchData : Bytes) (patch : BPSPatch) : Prop where
  srcSize : WellFormedNumber patchData (patchData.length - 12) bpsHeaderSize
  srcSizeUsed : patch.srcSize.toNat = numberOf (patchData.drop bpsHeaderSize)
  targetSize : WellFormedNumber patchData (patchData.length - 12) (targetSizeOffset patchData)
  targetSizeUsed : patch.targetSize.toNat = numberOf (patchData.drop (targetSizeOffset patchData))
  metadataSize : WellFormedNumber patchData (patchData.length - 12) (metadataSizeOffset patchData)
  metadataSizeUsed :
    patch.metadataSize.toNat = numberOf (patchData.drop (metadataSizeOffset patchData))
  metadata : patch.metadataString = slice patchData (metadataOffset patchData) patch.metadataSize.toNat
  metadataEnd : patch.dataOffset = metadataOffset patchData + patch.metadataSize.toNat
  before : patch.dataOffset ≤ patchData.length - 12
  commands : ∀ offset,
    WhileLoop.Visits (Running patchData) (turn patchData) patch.dataOffset offset →
      Running patchData offset → WellFormedCommand patchData offset
  exactly : ∀ offset,
    WhileLoop.Visits (Running patchData) (turn patchData) patch.dataOffset offset →
      ¬ Running patchData offset → offset + 12 = patchData.length

/-! ### The bytes of a patch -/

/-- The numbers of a command as the loader reads it: the relative offset is there for a copy alone, and
a `TargetRead` brings no bytes. -/
structure CommandNumbers where
  encoded : UInt64
  offsetDelta : UInt64

/-- The bytes of a command. -/
def CommandNumbers.encode (numbers : CommandNumbers) : Bytes :=
  encodeNum numbers.encoded.toNat ++
    if (Action.ofEncoded numbers.encoded).IsCopy then encodeNum numbers.offsetDelta.toNat else []

/-- The bytes are laid out as a patch: the magic, the encodings of three 64-bit numbers, of which the
last is the length of the metadata, the metadata, the numbers of commands, and twelve bytes of
checksums. -/
def IsFile (P : Bytes) : Prop :=
  ∃ (srcSize targetSize : UInt64) (metadata : Bytes) (commands : List CommandNumbers)
    (footer : Bytes), footer.length = 12 ∧
    P = bpsMagic ++ (encodeNum srcSize.toNat ++ (encodeNum targetSize.toNat
      ++ (encodeNum metadata.length ++ (metadata
        ++ (commands.flatMap CommandNumbers.encode ++ footer)))))

/-- The third number, reduced to 64 bits, is more than the bytes behind it, and where it would put the
end of the metadata is still a 64-bit number. -/
def MetadataRejected (P : Bytes) : Prop :=
  let sizeOffset := numberEnd P (numberEnd P bpsHeaderSize)
  let metadataEnd := numberEnd P sizeOffset + numberOf (P.drop sizeOffset) % 2 ^ 64
  P.length < metadataEnd ∧ metadataEnd < 2 ^ 64

theorem CommandNumbers.length_encode_pos (numbers : CommandNumbers) : 0 < numbers.encode.length := by
  have := length_encodeNum_pos numbers.encoded.toNat
  rw [encode, List.length_append]
  omega

/-! ### Well-formed commands are numbers -/

/-- Where a well-formed command is read stand the bytes of one. -/
theorem WellFormedCommand.exists_numbers {patchData : Bytes} {offset : Nat}
    (h : WellFormedCommand patchData offset) :
    ∃ numbers : CommandNumbers, patchData.drop offset
      = numbers.encode ++ patchData.drop (parseCommand patchData offset).2 := by
  obtain ⟨hencoded, hdelta⟩ := h
  obtain ⟨n, rest, hdrop, -⟩ := wellFormedNumber_iff.mp hencoded
  have hdecoded := decodeBpsNum_of_drop hdrop
  rw [UInt64.ofNat_toNat] at hdecoded
  have hrest := drop_add_of_drop hdrop
  rw [hdecoded] at hdelta
  rw [parseCommand, hdecoded]
  dsimp only at hdelta ⊢
  by_cases hcopy : (Action.ofEncoded n).IsCopy
  -- a copy: the relative offset is the second number
  · obtain ⟨d, rest', hdrop', -⟩ := wellFormedNumber_iff.mp (hdelta hcopy)
    have hrest' := drop_add_of_drop hdrop'
    refine ⟨⟨n, d⟩, ?_⟩
    rw [if_pos hcopy, CommandNumbers.encode, if_pos hcopy, decodeBpsNum_of_drop hdrop']
    dsimp only
    rw [hrest', List.append_assoc, ← hdrop', hrest, hdrop]
  · refine ⟨⟨n, 0⟩, ?_⟩
    rw [if_neg hcopy, CommandNumbers.encode, if_neg hcopy, List.append_nil, hrest, hdrop]

/-- Where the bytes of a command stand before the last twelve bytes, a well-formed command is read,
and all of them. -/
theorem CommandNumbers.wellFormedCommand (numbers : CommandNumbers) {patchData rest : Bytes}
    {offset : Nat} (h : patchData.drop offset = numbers.encode ++ rest)
    (hbefore : offset + numbers.encode.length ≤ patchData.length - 12) :
    WellFormedCommand patchData offset ∧
      (parseCommand patchData offset).2 = offset + numbers.encode.length := by
  rw [encode, List.append_assoc] at h
  rw [encode, List.length_append] at hbefore ⊢
  have hdecoded := decodeBpsNum_of_drop h
  rw [UInt64.ofNat_toNat] at hdecoded
  have hencoded : WellFormedNumber patchData (patchData.length - 12) offset :=
    wellFormedNumber_iff.mpr ⟨numbers.encoded, _, h, by omega⟩
  rw [parseCommand, hdecoded]
  dsimp only
  by_cases hcopy : (Action.ofEncoded numbers.encoded).IsCopy
  · have hdelta := drop_add_of_drop h
    rw [if_pos hcopy] at hdelta hbefore
    refine ⟨⟨hencoded, fun _ => ?_⟩, ?_⟩
    · rw [hdecoded]
      exact wellFormedNumber_iff.mpr ⟨numbers.offsetDelta, _, hdelta, by omega⟩
    · rw [if_pos hcopy, if_pos hcopy, decodeBpsNum_of_drop hdelta, Nat.add_assoc]
  · refine ⟨⟨hencoded, fun hcopy' => ?_⟩, ?_⟩
    · rw [hdecoded] at hcopy'
      exact absurd hcopy' hcopy
    · rw [if_neg hcopy, if_neg hcopy, List.length_nil, Nat.add_zero]

/-! ### The loader, up to the commands -/

/-- What the loader does behind the checks of the size and the magic. -/
theorem load_eq {P : Bytes} (hlong : ¬ P.length < bpsHeaderSize + 12)
    (hmagic : P.take bpsHeaderSize = bpsMagic) :
    BPSPatch.load P = (do
      let metadata ← parseMetadata P (decodeBpsNum P (metadataSizeOffset P)).1 (metadataOffset P)
      pure
        { patchData := P, srcSize := (decodeBpsNum P bpsHeaderSize).1
          targetSize := (decodeBpsNum P (targetSizeOffset P)).1
          metadataSize := (decodeBpsNum P (metadataSizeOffset P)).1
          metadataString := metadata.1, dataOffset := metadata.2
          commands := parseCommands P metadata.2
          srcCrc := uint32At P (P.length - 12)
          targetCrc := uint32At P (P.length - 12 + 4)
          patchCrc := uint32At P (P.length - 12 + 8) } : Call BPSPatch) := by
  rw [BPSPatch.load, if_neg hlong, if_neg (not_not.mpr hmagic), BPSPatch.parse, if_neg hlong,
    if_neg (not_not.mpr hmagic)]
  rfl

/-- What is too short for a patch, or begins with another magic, is rejected. -/
theorem load_eq_error {P : Bytes}
    (h : P.length < bpsHeaderSize + 12 ∨ P.take bpsHeaderSize ≠ bpsMagic) :
    ∃ e, BPSPatch.load P = .error e := by
  by_cases hlong : P.length < bpsHeaderSize + 12
  · exact ⟨_, by rw [BPSPatch.load, if_pos hlong]⟩
  · exact ⟨_, by rw [BPSPatch.load, if_neg hlong, if_pos (h.resolve_left hlong)]⟩

/-- The header of an accepted patch. -/
theorem load_header {P : Bytes} {patch : BPSPatch} (h : BPSPatch.load P = .ok patch) :
    P.take bpsHeaderSize = bpsMagic ∧ patch.srcSize = (decodeBpsNum P bpsHeaderSize).1 ∧
      patch.targetSize = (decodeBpsNum P (targetSizeOffset P)).1 ∧
      patch.metadataSize = (decodeBpsNum P (metadataSizeOffset P)).1 ∧
      parseMetadata P patch.metadataSize (metadataOffset P)
        = .ok (patch.metadataString, patch.dataOffset) := by
  by_cases hrejected : P.length < bpsHeaderSize + 12 ∨ P.take bpsHeaderSize ≠ bpsMagic
  · obtain ⟨e, he⟩ := load_eq_error hrejected
    cases he.symm.trans h
  · obtain ⟨hlong, hmagic⟩ := not_or.mp hrejected
    rw [load_eq hlong (not_not.mp hmagic)] at h
    obtain ⟨metadata, hmetadata, hpatch⟩ := Outcome.bind_eq_ok_iff.mp h
    cases hpatch
    exact ⟨not_not.mp hmagic, rfl, rfl, rfl, hmetadata⟩

theorem metadataOffset_le {P : Bytes} (hlong : bpsHeaderSize ≤ P.length) :
    metadataOffset P ≤ P.length := by
  rw [metadataOffset, decodeBpsNum_snd, metadataSizeOffset, decodeBpsNum_snd, targetSizeOffset,
    decodeBpsNum_snd]
  exact numberEnd_le (numberEnd_le (numberEnd_le hlong))

/-- **What becomes of a patch with a header**: it is loaded if its metadata end within it; past the end
it is rejected as long as their end is a 64-bit number, and else the load throws. -/
theorem load_cases {P : Bytes} (hfit : P.length ≤ maxSize) (hlong : ¬ P.length < bpsHeaderSize + 12)
    (hmagic : P.take bpsHeaderSize = bpsMagic) :
    (metadataEnd P ≤ P.length ∧
        ∃ patch, BPSPatch.load P = .ok patch ∧ patch.dataOffset = metadataEnd P) ∨
      (P.length < metadataEnd P ∧ metadataEnd P < 2 ^ 64 ∧ ∃ e, BPSPatch.load P = .error e) ∨
        (2 ^ 64 ≤ metadataEnd P ∧ BPSPatch.load P = .throws .lengthError) := by
  have hoffset : metadataOffset P ≤ P.length := metadataOffset_le (by omega)
  rw [load_eq hlong hmagic, parseMetadata_eq hfit hoffset, metadataEnd, declaredMetadataSize]
  by_cases hin : metadataOffset P + (decodeBpsNum P (metadataSizeOffset P)).1.toNat ≤ P.length
  · rw [if_pos hin, Outcome.ok_bind]
    exact .inl ⟨hin, _, rfl, rfl⟩
  rw [if_neg hin]
  by_cases hexact : metadataOffset P + (decodeBpsNum P (metadataSizeOffset P)).1.toNat < 2 ^ 64
  · rw [if_pos hexact, Outcome.error_bind]
    exact .inr (.inl ⟨Nat.not_le.mp hin, hexact, _, rfl⟩)
  · rw [if_neg hexact, Outcome.throws_bind]
    exact .inr (.inr ⟨Nat.not_lt.mp hexact, rfl⟩)

/-- The rejection of the metadata, in the numbers of the loader. -/
theorem metadataRejected_iff {P : Bytes} :
    MetadataRejected P ↔ P.length < metadataEnd P ∧ metadataEnd P < 2 ^ 64 := by
  rw [metadataEnd, declaredMetadataSize, toNat_decodeBpsNum_fst, metadataOffset, decodeBpsNum_snd,
    metadataSizeOffset, decodeBpsNum_snd, targetSizeOffset, decodeBpsNum_snd]
  rfl

/-! ### Well-laid-out patches are files -/

/-- Where the loader finds the parts of a file. -/
theorem IsFile.parts {P : Bytes} (hfit : P.length ≤ maxSize) (h : IsFile P) :
    ∃ (srcSize targetSize metadataSize : UInt64) (metadata : Bytes) (commands : List CommandNumbers)
      (footer rest rest' rest'' : Bytes), footer.length = 12 ∧
      metadata.length = metadataSize.toNat ∧
      P.drop bpsHeaderSize = encodeNum srcSize.toNat ++ rest ∧
      P.drop (targetSizeOffset P) = encodeNum targetSize.toNat ++ rest' ∧
      P.drop (metadataSizeOffset P) = encodeNum metadataSize.toNat ++ rest'' ∧
      P.drop (metadataOffset P)
        = metadata ++ (commands.flatMap CommandNumbers.encode ++ footer) := by
  obtain ⟨srcSize, targetSize, metadata, commands, footer, hfooter, hparts⟩ := h
  have hlength : (UInt64.ofNat metadata.length).toNat = metadata.length := by
    rw [UInt64.toNat_ofNat', Nat.mod_eq_of_lt]
    rw [hparts, maxSize] at hfit
    simp only [List.length_append] at hfit
    omega
  rw [← hlength] at hparts
  have hsrc : P.drop bpsHeaderSize = encodeNum srcSize.toNat ++ (encodeNum targetSize.toNat
      ++ (encodeNum (UInt64.ofNat metadata.length).toNat ++ (metadata
        ++ (commands.flatMap CommandNumbers.encode ++ footer)))) := by
    rw [hparts]; exact List.drop_left' rfl
  have htarget := drop_decodeBpsNum_snd hsrc
  have hmetadataSize := drop_decodeBpsNum_snd htarget
  have hmetadata := drop_decodeBpsNum_snd hmetadataSize
  exact ⟨srcSize, targetSize, UInt64.ofNat metadata.length, metadata, commands, footer, _, _, _,
    hfooter, hlength.symm, hsrc, htarget, hmetadataSize, hmetadata⟩

/-- The metadata of a file end within it. -/
theorem IsFile.metadataEnd_le {P : Bytes} (hfit : P.length ≤ maxSize) (h : IsFile P) :
    metadataEnd P ≤ P.length := by
  obtain ⟨_, _, metadataSize, metadata, _, _, _, _, _, hfooter, hlength, -, -, hsize, hmetadata⟩ :=
    h.parts hfit
  have hwhole := length_of_drop hmetadata (List.ne_nil_of_length_pos (by simp [hfooter]))
  rw [List.length_append] at hwhole
  rw [metadataEnd, declaredMetadataSize, decodeBpsNum_of_drop hsize, UInt64.ofNat_toNat, ← hlength]
  omega

/-- From where the commands of a file begin, the loop stops only between them. -/
theorem exists_commands_of_visits {patchData footer : Bytes} (hfooter : footer.length = 12)
    {commands : List CommandNumbers} {start offset : Nat}
    (h : patchData.drop start = commands.flatMap CommandNumbers.encode ++ footer)
    (hloop : WhileLoop.Visits (Running patchData) (turn patchData) start offset) :
    ∃ later : List CommandNumbers,
      patchData.drop offset = later.flatMap CommandNumbers.encode ++ footer := by
  refine hloop.invariant (fun offset => ∃ later : List CommandNumbers,
    patchData.drop offset = later.flatMap CommandNumbers.encode ++ footer) ⟨commands, h⟩ ?_
  rintro offset hrunning ⟨later, hlater⟩
  unfold Running at hrunning
  rcases footer_or_word_of_drop CommandNumbers.length_encode_pos hfooter hlater with
    ⟨-, hend⟩ | ⟨numbers, later, -, -, hbefore, hnumbers⟩
  · omega
  · obtain ⟨-, hnext⟩ := numbers.wellFormedCommand hnumbers hbefore
    refine ⟨later, ?_⟩
    rw [turn, hnext]
    exact drop_add_of_drop hnumbers

/-- A file that is accepted is read as well laid out. -/
theorem IsFile.wellLaidOut {P : Bytes} (hfit : P.length ≤ maxSize) (h : IsFile P)
    {patch : BPSPatch} (hload : BPSPatch.load P = .ok patch) : WellLaidOut P patch := by
  obtain ⟨-, hsrcSize, htargetSize, hmetadataSize, hparsed⟩ := load_header hload
  obtain ⟨srcSize, targetSize, metadataSize, metadata, commands, footer, rest, rest', rest'',
    hfooter, hlength, hsrc, htarget, hsize, hmetadata⟩ := h.parts hfit
  -- the parts one behind the other, up to the end
  have htargetOffset : targetSizeOffset P = bpsHeaderSize + (encodeNum srcSize.toNat).length := by
    rw [targetSizeOffset, decodeBpsNum_of_drop hsrc]
  have hsizeOffset : metadataSizeOffset P
      = targetSizeOffset P + (encodeNum targetSize.toNat).length := by
    rw [metadataSizeOffset, decodeBpsNum_of_drop htarget]
  have hmetadataOffset : metadataOffset P
      = metadataSizeOffset P + (encodeNum metadataSize.toNat).length := by
    rw [metadataOffset, decodeBpsNum_of_drop hsize]
  have hwhole := length_of_drop hmetadata (List.ne_nil_of_length_pos (by simp [hfooter]))
  rw [List.length_append, List.length_append, hfooter] at hwhole
  have hused : patch.metadataSize = metadataSize := by
    rw [hmetadataSize, decodeBpsNum_of_drop hsize, UInt64.ofNat_toNat]
  rw [parseMetadata_eq hfit (by omega), hused, ← hlength, if_pos (by omega),
    slice_of_drop hmetadata] at hparsed
  have hstring : patch.metadataString = metadata := (Prod.mk.inj (Outcome.ok.inj hparsed)).1.symm
  have hdataOffset : patch.dataOffset = metadataOffset P + metadata.length :=
    (Prod.mk.inj (Outcome.ok.inj hparsed)).2.symm
  have hcommands := drop_add_of_drop hmetadata
  rw [← hdataOffset] at hcommands
  have hregion := length_of_drop hcommands (List.ne_nil_of_length_pos (by simp [hfooter]))
  constructor
  case srcSize => exact wellFormedNumber_iff.mpr ⟨srcSize, rest, hsrc, by omega⟩
  case srcSizeUsed =>
    rw [hsrcSize, decodeBpsNum_of_drop hsrc, UInt64.ofNat_toNat, hsrc, numberOf_encodeNum_append]
  case targetSize => exact wellFormedNumber_iff.mpr ⟨targetSize, rest', htarget, by omega⟩
  case targetSizeUsed =>
    rw [htargetSize, decodeBpsNum_of_drop htarget, UInt64.ofNat_toNat, htarget,
      numberOf_encodeNum_append]
  case metadataSize => exact wellFormedNumber_iff.mpr ⟨metadataSize, rest'', hsize, by omega⟩
  case metadataSizeUsed => rw [hused, hsize, numberOf_encodeNum_append]
  case metadata => rw [hused, ← hlength, slice_of_drop hmetadata, hstring]
  case metadataEnd => rw [hused, ← hlength, hdataOffset]
  case before => omega
  case commands =>
    intro offset hloop hrunning
    obtain ⟨later, hlater⟩ := exists_commands_of_visits hfooter hcommands hloop
    unfold Running at hrunning
    rcases footer_or_word_of_drop CommandNumbers.length_encode_pos hfooter hlater with
      ⟨-, hend⟩ | ⟨numbers, later, -, -, hbefore, hnumbers⟩
    · omega
    · exact (numbers.wellFormedCommand hnumbers hbefore).1
  case exactly =>
    intro offset hloop hends
    obtain ⟨later, hlater⟩ := exists_commands_of_visits hfooter hcommands hloop
    rcases footer_or_word_of_drop CommandNumbers.length_encode_pos hfooter hlater with
      ⟨-, hend⟩ | ⟨-, -, -, hrunning, -⟩
    · exact hend
    · exact absurd hrunning hends

/-- What is read as well laid out is a file. -/
theorem WellLaidOut.isFile {P : Bytes} {patch : BPSPatch}
    (hmagic : P.take bpsHeaderSize = bpsMagic) (h : WellLaidOut P patch) : IsFile P := by
  obtain ⟨srcSize, rest, hsrc, -⟩ := wellFormedNumber_iff.mp h.srcSize
  obtain ⟨targetSize, rest', htarget, -⟩ := wellFormedNumber_iff.mp h.targetSize
  obtain ⟨metadataSize, rest'', hsize, -⟩ := wellFormedNumber_iff.mp h.metadataSize
  have hused : patch.metadataSize.toNat = metadataSize.toNat := by
    rw [h.metadataSizeUsed, hsize, numberOf_encodeNum_append]
  have hdown : ∀ offset, Running P offset → P.length - turn P offset < P.length - offset := by
    intro offset hrunning
    unfold Running at hrunning
    have hnext : offset < turn P offset := lt_parseCommand (by omega)
    omega
  have hregion : ∃ (commands : List CommandNumbers) (footer : Bytes), footer.length = 12 ∧
      P.drop patch.dataOffset = commands.flatMap CommandNumbers.encode ++ footer := by
    refine WhileLoop.of_turns (P.length - ·) hdown (fun offset =>
      ∃ (commands : List CommandNumbers) (footer : Bytes), footer.length = 12 ∧
        P.drop offset = commands.flatMap CommandNumbers.encode ++ footer) patch.dataOffset ?_ ?_
    · -- where the loop ends stand the twelve bytes
      intro offset hloop hends
      have hend := h.exactly offset hloop hends
      exact ⟨[], P.drop offset, by rw [List.length_drop]; omega, rfl⟩
    · -- and every turn puts a command in front
      rintro offset hloop hrunning ⟨commands, footer, hfooter, hnext⟩
      obtain ⟨numbers, hnumbers⟩ := (h.commands offset hloop hrunning).exists_numbers
      refine ⟨numbers :: commands, footer, hfooter, ?_⟩
      rw [hnumbers, List.flatMap_cons, List.append_assoc, ← hnext]
      rfl
  obtain ⟨commands, footer, hfooter, hcommands⟩ := hregion
  have hbefore := h.before
  have hwhole := congrArg List.length hcommands
  rw [List.length_drop, List.length_append, hfooter] at hwhole
  -- the metadata are as long as their size says
  have hlength : patch.metadataString.length = metadataSize.toNat := by
    rw [h.metadata, length_slice, hused]
    rw [← h.metadataEnd]
    omega
  have hmetadata : P.drop (metadataOffset P)
      = patch.metadataString ++ (commands.flatMap CommandNumbers.encode ++ footer) := by
    rw [← hcommands, h.metadata, h.metadataEnd, slice, ← List.drop_drop, List.take_append_drop]
  have hbehindSize : P.drop (metadataOffset P) = rest'' := drop_decodeBpsNum_snd hsize
  have hbehindTarget : P.drop (metadataSizeOffset P) = rest' := drop_decodeBpsNum_snd htarget
  have hbehindSrc : P.drop (targetSizeOffset P) = rest := drop_decodeBpsNum_snd hsrc
  refine ⟨srcSize, targetSize, patch.metadataString, commands, footer, hfooter, ?_⟩
  rw [← hmetadata, hbehindSize, hlength, ← hsize, hbehindTarget, ← htarget, hbehindSrc, ← hsrc,
    ← hmagic, List.take_append_drop]

/-! ### What the loader accepts -/

/-- An error is returned, and accepts nothing. -/
theorem returns_of_error {p : BPSPatch → Prop} (e : ErrorInfo) :
    Outcome.Returns (.error e : Call BPSPatch) ∧
      ∀ patch, (.error e : Call BPSPatch) = .ok patch → p patch := by
  refine ⟨Outcome.returns_error e, ?_⟩
  intro patch h
  cases h

/-- **When the loader accepts well-laid-out patches only.** For bytes that fit a vector: the loader
returns, and what it accepts is well laid out, exactly if the bytes are rejected for their size, their
magic or their metadata, or are laid out as a patch. -/
theorem load_wellLaidOut_iff {P : Bytes} (hfit : P.length ≤ maxSize) :
    ((BPSPatch.load P).Returns ∧ ∀ patch, BPSPatch.load P = .ok patch → WellLaidOut P patch) ↔
      P.length < bpsHeaderSize + 12 ∨ P.take bpsHeaderSize ≠ bpsMagic ∨ MetadataRejected P ∨
        IsFile P := by
  by_cases hrejected : P.length < bpsHeaderSize + 12 ∨ P.take bpsHeaderSize ≠ bpsMagic
  · obtain ⟨e, he⟩ := load_eq_error hrejected
    rw [he]
    exact iff_of_true (returns_of_error e) (or_assoc.mp (.inl hrejected))
  obtain ⟨hlong, hmagic⟩ := not_or.mp hrejected
  rw [or_iff_right hlong, or_iff_right hmagic, metadataRejected_iff]
  rcases load_cases hfit hlong (not_not.mp hmagic) with
    ⟨hin, patch, hload, -⟩ | ⟨hpast, hexact, e, he⟩ | ⟨hwraps, hthrows⟩
  · -- the metadata end within the file, and the loader accepts it
    rw [or_iff_right (by omega)]
    constructor
    · rintro ⟨-, hall⟩
      exact (hall patch hload).isFile (not_not.mp hmagic)
    · intro hfile
      refine ⟨?_, fun patch hpatch => hfile.wellLaidOut hfit hpatch⟩
      rw [hload]
      exact Outcome.returns_ok _
  · rw [he]
    exact iff_of_true (returns_of_error e) (.inl ⟨hpast, hexact⟩)
  · -- the end of the metadata wraps, and the assignment throws
    rw [hthrows]
    refine iff_of_false (fun h => Outcome.not_returns_throws _ h.1) ?_
    rintro (⟨-, hexact⟩ | hfile)
    · omega
    · have hend := hfile.metadataEnd_le hfit
      rw [maxSize] at hfit
      omega

/-- Sixteen bytes, the last twelve of them zeros: the sizes are read out of the checksums. -/
theorem not_load_wellLaidOut :
    ¬ ((BPSPatch.load (bpsMagic ++ List.replicate 12 0)).Returns ∧
      ∀ patch, BPSPatch.load (bpsMagic ++ List.replicate 12 0) = .ok patch →
        WellLaidOut (bpsMagic ++ List.replicate 12 0) patch) := by
  rintro ⟨-, h⟩
  have hloads : (BPSPatch.load (bpsMagic ++ List.replicate 12 0)).bind
      (fun _ => .ok ()) = (.ok () : Call Unit) := by decide +kernel
  obtain ⟨patch, hload, -⟩ := Outcome.bind_eq_ok_iff.mp hloads
  have hbefore := (h patch hload).srcSize.before
  revert hbefore
  decide

/-- A file without metadata and of one command. -/
theorem load_wellLaidOut_oneCommand :
    let P := bpsMagic ++ (encodeNum 1 ++ (encodeNum 1 ++ (encodeNum 0 ++ (encodeNum 0
      ++ List.replicate 12 0))))
    (BPSPatch.load P).Returns ∧ ∀ patch, BPSPatch.load P = .ok patch → WellLaidOut P patch := by
  refine (load_wellLaidOut_iff (by decide +kernel)).mpr (.inr (.inr (.inr ?_)))
  exact ⟨1, 1, [], [⟨0, 0⟩], List.replicate 12 0, by decide, by decide +kernel⟩

end IUBPatch.BPS
