import IUBPatch.Formats.BPSLoad

/-! # BPS parsing of BPS serialisations

The writer of the format, and the loader of the source run on what it writes. The format puts the
bytes of a `TargetRead` right behind its number; the loader does not skip them, so it goes on to
decode them as commands. -/

namespace IUBPatch.BPS

/-! ### The writer -/

/-- The two low bits that stand for an action. -/
def Action.code : Action → Nat
  | .sourceRead => 0
  | .targetRead => 1
  | .sourceCopy => 2
  | .targetCopy => 3

theorem Action.code_lt (action : Action) : action.code < 4 := by
  cases action <;> decide

/-- A length a command can carry. -/
abbrev CommandLength := { n : Nat // 1 ≤ n ∧ n ≤ 2 ^ 62 }

/-- An action as the format writes it: `TargetRead` comes with the bytes it inserts. -/
inductive Item where
  | sourceRead (n : CommandLength)
  | targetRead (payload : Bytes) (bounds : 1 ≤ payload.length ∧ payload.length ≤ 2 ^ 62)
  | sourceCopy (n : CommandLength) (d : UInt64)
  | targetCopy (n : CommandLength) (d : UInt64)

namespace Item

/-- The kind of an item. -/
def action : Item → Action
  | .sourceRead _ => .sourceRead
  | .targetRead _ _ => .targetRead
  | .sourceCopy _ _ => .sourceCopy
  | .targetCopy _ _ => .targetCopy

/-- The number of bytes an item appends. -/
def length : Item → CommandLength
  | .sourceRead n => n
  | .targetRead payload bounds => ⟨payload.length, bounds⟩
  | .sourceCopy n _ => n
  | .targetCopy n _ => n

/-- The relative offset of a copy. -/
def delta : Item → UInt64
  | .sourceRead _ => 0
  | .targetRead _ _ => 0
  | .sourceCopy _ d => d
  | .targetCopy _ d => d

/-- The bytes the item brings along. -/
def payload : Item → Bytes
  | .targetRead payload _ => payload
  | _ => []

/-- The number of a command: length and kind in one. -/
def encoded (item : Item) : Nat := (item.length - 1) * 4 + item.action.code

/-- The numbers of an item. -/
def numbers (item : Item) : Bytes :=
  encodeNum item.encoded ++ if item.action.IsCopy then encodeNum item.delta.toNat else []

/-- The bytes of an item. -/
def encode (item : Item) : Bytes := item.numbers ++ item.payload

/-- The parsed form of an item. -/
def command (item : Item) : Command where
  action := item.action
  length := UInt64.ofNat item.length
  offsetDelta := item.delta
  length_pos := by
    have := item.length.2
    rw [UInt64.toNat_ofNat', Nat.mod_eq_of_lt (by omega)]
    omega
  length_le := by
    have := item.length.2
    rw [UInt64.toNat_ofNat', Nat.mod_eq_of_lt (by omega)]
    omega

end Item

/-- What a BPS file is written from. -/
structure Content where
  srcSize : UInt64
  targetSize : UInt64
  metadata : Bytes
  items : List Item
  srcCrc : UInt32
  targetCrc : UInt32
  patchCrc : UInt32

namespace Content

/-- The bytes before the commands. -/
def front (content : Content) : Bytes :=
  bpsMagic ++ (encodeNum content.srcSize.toNat ++ (encodeNum content.targetSize.toNat
    ++ (encodeNum content.metadata.length ++ content.metadata)))

/-- The three checksums. -/
def footer (content : Content) : Bytes :=
  uint32Bytes content.srcCrc ++ (uint32Bytes content.targetCrc ++ uint32Bytes content.patchCrc)

/-- The file. -/
def serialize (content : Content) : Bytes :=
  content.front ++ (content.items.flatMap Item.encode ++ content.footer)

@[simp] theorem length_footer (content : Content) : content.footer.length = 12 := by
  simp [footer]

end Content

/-! ### Reading a command back -/

theorem Item.encoded_lt (item : Item) : item.encoded < 2 ^ 64 := by
  have hlength := item.length.2
  have hcode := item.action.code_lt
  rw [encoded]
  omega

theorem Item.toNat_encoded (item : Item) : (UInt64.ofNat item.encoded).toNat = item.encoded := by
  rw [UInt64.toNat_ofNat', Nat.mod_eq_of_lt item.encoded_lt]

/-- The low bits of the number are the kind. -/
theorem Item.action_ofEncoded (item : Item) :
    Action.ofEncoded (UInt64.ofNat item.encoded) = item.action := by
  have hcode : (UInt64.ofNat item.encoded &&& 3).toNat = item.action.code := by
    have hmask : (UInt64.ofNat item.encoded &&& 3).toNat = item.encoded % 4 := by
      rw [UInt64.toNat_and, toNat_encoded]
      exact Nat.and_two_pow_sub_one_eq_mod item.encoded 2
    have hlt := item.action.code_lt
    rw [hmask, encoded]
    omega
  rw [Action.ofEncoded, hcode]
  cases item.action <;> rfl

/-- The high bits of the number are the length. -/
theorem Item.length_ofEncoded (item : Item) :
    encodedLength (UInt64.ofNat item.encoded) = UInt64.ofNat item.length := by
  have hlength := item.length.2
  have hcode := item.action.code_lt
  rw [← UInt64.toNat_inj, toNat_encodedLength, toNat_encoded, UInt64.toNat_ofNat',
    Nat.mod_eq_of_lt (by omega), encoded]
  omega

theorem Item.command_ofEncoded (item : Item) :
    Command.ofEncoded (UInt64.ofNat item.encoded) item.delta = item.command := by
  simp only [Command.ofEncoded, command, action_ofEncoded, length_ofEncoded]

/-- The loader reads the numbers of an item back where they stand, and stops right behind them,
before the payload. -/
theorem parseCommand_of_drop {patchData rest : Bytes} {offset : Nat} (item : Item)
    (h : patchData.drop offset = item.numbers ++ rest) :
    parseCommand patchData offset = (item.command, offset + item.numbers.length) := by
  rw [Item.numbers, List.append_assoc] at h
  rw [parseCommand, decodeBpsNum_of_drop h]
  dsimp only
  rw [item.action_ofEncoded]
  by_cases hcopy : item.action.IsCopy
  -- a copy: the relative offset is the second number
  · have hdelta := drop_add_of_drop h
    rw [if_pos hcopy] at hdelta
    rw [if_pos hcopy, decodeBpsNum_of_drop hdelta, UInt64.ofNat_toNat, item.command_ofEncoded,
      Item.numbers, if_pos hcopy, List.length_append, Nat.add_assoc]
  · have hzero : item.delta = 0 := by
      cases item <;> simp_all [Item.action, Action.IsCopy, Item.delta]
    rw [if_neg hcopy, ← hzero, item.command_ofEncoded, Item.numbers, if_neg hcopy, List.append_nil]

theorem Item.length_numbers_pos (item : Item) : 0 < item.numbers.length := by
  have := length_encodeNum_pos item.encoded
  rw [numbers, List.length_append]
  omega

/-- **The command loop on items without payload**: it reads them all and stops at the footer. -/
theorem parseCommands_of_drop {patchData footer : Bytes} (hfooter : footer.length = 12)
    {items : List Item} (hplain : ∀ item ∈ items, item.payload = []) {offset : Nat}
    (h : patchData.drop offset = items.flatMap Item.encode ++ footer) :
    parseCommands patchData offset = items.map Item.command := by
  induction items generalizing offset with
  | nil =>
    have hne : footer ≠ [] := List.ne_nil_of_length_pos (by omega)
    have hlength := length_of_drop h hne
    rw [List.flatMap_nil, List.nil_append, hfooter] at hlength
    rw [parseCommands, if_neg (by omega), List.map_nil]
  | cons item items ih =>
    have hencode : item.encode = item.numbers := by
      rw [Item.encode, hplain item (by simp), List.append_nil]
    rw [List.flatMap_cons, hencode, List.append_assoc] at h
    have hpos := item.length_numbers_pos
    have hne : item.numbers ++ (items.flatMap Item.encode ++ footer) ≠ [] :=
      List.append_ne_nil_of_left_ne_nil (List.ne_nil_of_length_pos hpos) _
    have hlength := length_of_drop h hne
    rw [List.length_append, List.length_append, hfooter] at hlength
    rw [parseCommands, if_pos (by omega), parseCommand_of_drop item h, List.map_cons]
    dsimp only
    rw [ih (fun other hother => hplain other (by simp [hother])) (drop_add_of_drop h)]

/-! ### Where the loader looks for commands -/

/-- The offsets at which the command loop of `parse`, started at `dataOffset`, reads a command. -/
inductive CommandAt (patchData : Bytes) (dataOffset : Nat) : Nat → Prop
  | first (h : dataOffset + 12 < patchData.length) : CommandAt patchData dataOffset dataOffset
  | next {offset : Nat} (before : CommandAt patchData dataOffset offset)
      (h : (parseCommand patchData offset).2 + 12 < patchData.length) :
      CommandAt patchData dataOffset (parseCommand patchData offset).2

/-- The byte at a position is decoded as part of a command. -/
def DecodedAsCommand (patchData : Bytes) (dataOffset position : Nat) : Prop :=
  ∃ offset, CommandAt patchData dataOffset offset ∧ offset ≤ position ∧
    position < (parseCommand patchData offset).2

/-- **The loader decodes everything before the footer**: the command loop leaves no byte out. -/
theorem decodedAsCommand_of_le {patchData : Bytes} {dataOffset offset position : Nat}
    (hat : CommandAt patchData dataOffset offset) (hle : offset ≤ position)
    (hlt : position + 12 < patchData.length) :
    DecodedAsCommand patchData dataOffset position := by
  by_cases hin : position < (parseCommand patchData offset).2
  · exact ⟨offset, hat, hle, hin⟩
  · have hnext : offset < (parseCommand patchData offset).2 := lt_parseCommand (by omega)
    exact decodedAsCommand_of_le (hat.next (by omega)) (Nat.not_lt.mp hin) hlt
termination_by position - offset

/-! ### The header -/

/-- The loader reads the metadata back where it stands. -/
theorem parseMetadata_of_drop {patchData metadata rest : Bytes} {offset : Nat}
    (hfit : patchData.length ≤ maxSize) (hoffset : offset ≤ patchData.length)
    (h : patchData.drop offset = metadata ++ rest) :
    parseMetadata patchData (UInt64.ofNat metadata.length) offset
      = .ok (metadata, offset + metadata.length) := by
  have hlength : offset + metadata.length ≤ patchData.length := by
    have := congrArg List.length h
    rw [List.length_drop, List.length_append] at this
    omega
  have hbound := hfit
  unfold maxSize at hbound
  have hsize : (UInt64.ofNat metadata.length).toNat = metadata.length := by
    rw [UInt64.toNat_ofNat', Nat.mod_eq_of_lt (by omega)]
  rw [parseMetadata_eq hfit hoffset, hsize, if_pos hlength, slice_of_drop h]

/-- **A serialisation loads**, with its header read back and its commands read from behind the
metadata. -/
theorem exists_load_content (content : Content) (hfit : content.serialize.length ≤ maxSize) :
    ∃ patch, BPSPatch.load content.serialize = .ok patch ∧ patch.srcSize = content.srcSize ∧
      patch.targetSize = content.targetSize ∧
      patch.metadataSize = UInt64.ofNat content.metadata.length ∧
      patch.metadataString = content.metadata ∧ patch.srcCrc = content.srcCrc ∧
      patch.targetCrc = content.targetCrc ∧ patch.patchCrc = content.patchCrc ∧
      patch.dataOffset = content.front.length ∧
      patch.commands = parseCommands content.serialize content.front.length := by
  have hparts : content.serialize = bpsMagic ++ (encodeNum content.srcSize.toNat
      ++ (encodeNum content.targetSize.toNat ++ (encodeNum content.metadata.length
        ++ (content.metadata ++ (content.items.flatMap Item.encode ++ content.footer))))) := by
    simp [Content.serialize, Content.front]
  have hmagic : content.serialize.take bpsHeaderSize = bpsMagic := by
    rw [hparts]; exact List.take_left' rfl
  have hsrc : content.serialize.drop bpsHeaderSize = encodeNum content.srcSize.toNat
      ++ (encodeNum content.targetSize.toNat ++ (encodeNum content.metadata.length
        ++ (content.metadata ++ (content.items.flatMap Item.encode ++ content.footer)))) := by
    rw [hparts]; exact List.drop_left' rfl
  have htarget := drop_add_of_drop hsrc
  have hmetadataSize := drop_add_of_drop htarget
  have hmetadata := drop_add_of_drop hmetadataSize
  have hfront : content.front.length = bpsHeaderSize + (encodeNum content.srcSize.toNat).length
      + (encodeNum content.targetSize.toNat).length + (encodeNum content.metadata.length).length
      + content.metadata.length := by
    simp only [Content.front, List.length_append, ← Nat.add_assoc]
    rfl
  have hwhole : content.serialize.length = content.front.length
      + ((content.items.flatMap Item.encode).length + 12) := by
    rw [Content.serialize, List.length_append, List.length_append, Content.length_footer]
  have hlong : ¬ content.serialize.length < bpsHeaderSize + 12 := by omega
  have hcrc : content.serialize.drop (content.serialize.length - 12) = content.footer := by
    rw [hwhole, Content.serialize, ← List.append_assoc]
    exact List.drop_left' (by rw [List.length_append]; omega)
  have hparsed := parseMetadata_of_drop hfit (by omega) hmetadata
  rw [BPSPatch.load, if_neg hlong, if_neg (not_not.mpr hmagic), BPSPatch.parse, if_neg hlong,
    if_neg (not_not.mpr hmagic), decodeBpsNum_of_drop hsrc]
  dsimp only
  rw [decodeBpsNum_of_drop htarget]
  dsimp only
  rw [decodeBpsNum_of_drop hmetadataSize]
  dsimp only
  rw [hparsed, Outcome.ok_bind]
  exact ⟨_, rfl, UInt64.ofNat_toNat, UInt64.ofNat_toNat, rfl, rfl, uint32At_of_drop hcrc,
    uint32At_of_drop (drop_add_of_drop hcrc),
    uint32At_of_drop (drop_add_of_drop (drop_add_of_drop hcrc)), hfront.symm, by rw [hfront]⟩

/-! ### The round trip -/

/-- The positions of the payload bytes of items written from an offset on. -/
def payloadPositions : (offset : Nat) → List Item → List Nat
  | _, [] => []
  | offset, item :: items =>
    List.range' (offset + item.numbers.length) item.payload.length
      ++ payloadPositions (offset + item.encode.length) items

/-- The positions of the command bytes of items written from an offset on. -/
def numberPositions : (offset : Nat) → List Item → List Nat
  | _, [] => []
  | offset, item :: items =>
    List.range' offset item.numbers.length ++ numberPositions (offset + item.encode.length) items

/-- The payloads of the `TargetRead`s, in order. -/
def payloads (items : List Item) : List Bytes :=
  (items.filter (·.action = .targetRead)).map Item.payload

/-- Every `TargetRead` that a replay comes to inserts the payload of the item it was written from, and
reads it from no position that holds a command. -/
def InsertsPayloads (content : Content) (patch : BPSPatch) : Prop :=
  ∀ (source : Bytes) (executed rest : List Command) (cmd : Command) (st : ReplayState),
    patch.commands = executed ++ cmd :: rest → cmd.action = .targetRead →
    replay patch.patchData source patch.dataOffset executed = .ok st →
    ∃ payload st', (payloads content.items)[executed.countP (·.action = .targetRead)]? = some payload ∧
      execCommand patch.patchData source st cmd = .ok st' ∧ st'.output = st.output ++ payload ∧
      ∀ position ∈ numberPositions content.front.length content.items,
        ¬ (st.patchDataOffset.toNat ≤ position ∧
          position < st.patchDataOffset.toNat + cmd.length.toNat)

/-- The patch is the content it was written from: the header, the commands in order, no payload byte
decoded as a command, and every payload inserted where it belongs. -/
structure Preserves (content : Content) (patch : BPSPatch) : Prop where
  srcSize : patch.srcSize = content.srcSize
  targetSize : patch.targetSize = content.targetSize
  metadataSize : patch.metadataSize = UInt64.ofNat content.metadata.length
  metadata : patch.metadataString = content.metadata
  srcCrc : patch.srcCrc = content.srcCrc
  targetCrc : patch.targetCrc = content.targetCrc
  patchCrc : patch.patchCrc = content.patchCrc
  commands : patch.commands = content.items.map Item.command
  undecoded : ∀ position ∈ payloadPositions content.front.length content.items,
    ¬ DecodedAsCommand content.serialize patch.dataOffset position
  inserted : InsertsPayloads content patch

/-- A list with a `TargetRead` has a payload byte, inside what the items take up. -/
theorem exists_payloadPosition {items : List Item} {item : Item} (hmem : item ∈ items)
    (hread : item.action = .targetRead) (offset : Nat) :
    ∃ position ∈ payloadPositions offset items, offset ≤ position ∧
      position < offset + (items.flatMap Item.encode).length := by
  induction items generalizing offset with
  | nil => cases hmem
  | cons first items ih =>
    rw [List.flatMap_cons, List.length_append, payloadPositions]
    rcases List.mem_cons.mp hmem with rfl | hmem
    · have hpayload : 0 < item.payload.length := by
        cases item with
        | targetRead payload bounds => exact bounds.1
        | _ => cases hread
      have hencode : item.encode.length = item.numbers.length + item.payload.length := by
        rw [Item.encode, List.length_append]
      refine ⟨offset + item.numbers.length, ?_, by omega, by omega⟩
      exact List.mem_append_left _ (List.mem_range'_1.mpr ⟨Nat.le_refl _, by omega⟩)
    · obtain ⟨position, hposition, hle, hlt⟩ := ih hmem (offset + first.encode.length)
      exact ⟨position, List.mem_append_right _ hposition, by omega, by omega⟩

/-- Items without `TargetRead` bring no payload. -/
theorem payload_eq_nil {item : Item} (h : item.action ≠ .targetRead) : item.payload = [] := by
  cases item with
  | targetRead => exact absurd rfl h
  | _ => rfl

theorem payloadPositions_eq_nil {items : List Item}
    (hplain : ∀ item ∈ items, item.payload = []) (offset : Nat) :
    payloadPositions offset items = [] := by
  induction items generalizing offset with
  | nil => rfl
  | cons item items ih =>
    rw [payloadPositions, hplain item (by simp), ih fun other hother => hplain other (by simp [hother])]
    rfl

/-- **Where BPS parsing undoes BPS serialisation.** A content that fits a vector is loaded back as
itself, payloads included, exactly when it has no `TargetRead`. -/
theorem preserves_load_iff {content : Content} (hfit : content.serialize.length ≤ maxSize) :
    (∃ patch, BPSPatch.load content.serialize = .ok patch ∧ Preserves content patch) ↔
      ∀ item ∈ content.items, item.action ≠ .targetRead := by
  obtain ⟨patch, hload, hsrcSize, htargetSize, hmetadataSize, hmetadata, hsrcCrc, htargetCrc,
    hpatchCrc, hdataOffset, hcommands⟩ := exists_load_content content hfit
  have hwhole : content.serialize.length = content.front.length
      + ((content.items.flatMap Item.encode).length + 12) := by
    rw [Content.serialize, List.length_append, List.length_append, Content.length_footer]
  constructor
  · rintro ⟨patch', hload', hpreserves⟩ item hmem hread
    rw [hload] at hload'
    cases hload'
    -- the first payload byte lies before the footer, and the loader decodes everything there
    obtain ⟨position, hposition, hle, hlt⟩ :=
      exists_payloadPosition hmem hread content.front.length
    refine hpreserves.undecoded position hposition ?_
    rw [hdataOffset]
    exact decodedAsCommand_of_le (.first (by omega)) hle (by omega)
  · intro hkinds
    have hplain : ∀ item ∈ content.items, item.payload = [] :=
      fun item hitem => payload_eq_nil (hkinds item hitem)
    have hitems : content.serialize.drop content.front.length
        = content.items.flatMap Item.encode ++ content.footer := List.drop_left
    have hparsed : patch.commands = content.items.map Item.command :=
      hcommands.trans (parseCommands_of_drop content.length_footer hplain hitems)
    refine ⟨patch, hload, hsrcSize, htargetSize, hmetadataSize, hmetadata, hsrcCrc, htargetCrc,
      hpatchCrc, hparsed, ?_, ?_⟩
    · intro position hposition
      rw [payloadPositions_eq_nil hplain] at hposition
      cases hposition
    · intro source executed rest cmd st hsplit hread
      have hmem : cmd ∈ content.items.map Item.command := by rw [← hparsed, hsplit]; simp
      obtain ⟨item, hitem, rfl⟩ := List.mem_map.mp hmem
      exact absurd hread (hkinds item hitem)

/-- One inserted byte: the loader decodes it and the footer behind it as a second command. -/
theorem not_preserves_load :
    ¬ ∃ patch, BPSPatch.load (Content.serialize
        ⟨0, 1, [], [.targetRead [0x41] (by decide)], 0, 0, 0⟩) = .ok patch ∧
      Preserves ⟨0, 1, [], [.targetRead [0x41] (by decide)], 0, 0, 0⟩ patch := by
  rintro ⟨patch, hload, hpreserves⟩
  have hcommands : (do
      let patch ← BPSPatch.load (Content.serialize
        ⟨0, 1, [], [.targetRead [0x41] (by decide)], 0, 0, 0⟩)
      pure patch.commands.length : Call Nat) = .ok 1 := by
    rw [hload, Outcome.ok_bind, hpreserves.commands]
    rfl
  revert hcommands
  decide +kernel

/-- A file of a read and a copy, with metadata. -/
theorem preserves_load_readCopy :
    ∃ patch, BPSPatch.load (Content.serialize ⟨1, 3, [0x6D],
        [.sourceRead ⟨1, by decide⟩, .targetCopy ⟨2, by decide⟩ 0], 0, 0, 0⟩) = .ok patch ∧
      Preserves ⟨1, 3, [0x6D],
        [.sourceRead ⟨1, by decide⟩, .targetCopy ⟨2, by decide⟩ 0], 0, 0, 0⟩ patch :=
  (preserves_load_iff (by decide +kernel)).mpr (by decide)

end IUBPatch.BPS
