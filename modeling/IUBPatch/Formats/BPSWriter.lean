import IUBPatch.Crc32Residue
import IUBPatch.FileEffects
import IUBPatch.Formats.BPSReference
import IUBPatch.Formats.BPSRoundTrip

/-! # Writing BPS patches

An edit script says what a target is made of: ranges of the source, and ranges of the target as far as
it is written. The writer turns every range into a copy command with the offset relative to where the
cursor of its kind stands. Scripts are free of the two actions the loader and the replayer get wrong,
so what is written for a script means the script, to this library and to the format's own
interpreter. -/

namespace IUBPatch.BPS

/-! ### Edit scripts -/

/-- A range to copy, out of the source or out of the target written so far. -/
inductive Edit where
  | source (start : Nat) (length : CommandLength)
  | target (start : Nat) (length : CommandLength)

namespace Edit

/-- The number of bytes an edit appends. -/
def length : Edit → Nat
  | .source _ length => length
  | .target _ length => length

/-- The range as a resolved command. -/
def segment : Edit → Segment
  | .source start length => .source start length
  | .target start length => .target start length

/-- The range lies in the source, or begins in the target so far. -/
def InBounds (sourceLength written : Nat) : Edit → Prop
  | .source start length => start + length ≤ sourceLength
  | .target start _ => start < written

end Edit

/-- The bytes a script appends. -/
def scriptLength (edits : List Edit) : Nat := (edits.map Edit.length).sum

/-- Every range of a script is in bounds when its turn comes. -/
def ScriptInBounds (sourceLength : Nat) : (written : Nat) → List Edit → Prop
  | _, [] => True
  | written, edit :: edits =>
    edit.InBounds sourceLength written ∧ ScriptInBounds sourceLength (written + edit.length) edits

/-- What a script makes of a source. -/
def meaning (source : Bytes) (edits : List Edit) : Bytes := render source [] (edits.map Edit.segment)

/-- A script in bounds appends as many bytes as it says. -/
theorem length_render_script {source : Bytes} {edits : List Edit} {out : Bytes}
    (h : ScriptInBounds source.length out.length edits) :
    (render source out (edits.map Edit.segment)).length = out.length + scriptLength edits := by
  induction edits generalizing out with
  | nil => rfl
  | cons edit edits ih =>
    obtain ⟨hedit, hrest⟩ := h
    have hlength : (edit.segment.append source out).length = out.length + edit.length := by
      cases edit with
      | source start length => exact List.length_append.trans (by rw [length_slice hedit]; rfl)
      | target start length => exact SelfCopy.length_extend hedit _
    rw [List.map_cons, render, ih (by rw [hlength]; exact hrest), hlength, scriptLength, scriptLength,
      List.map_cons, List.sum_cons, Nat.add_assoc]

/-! ### The writer -/

/-- The relative offset of a copy from a cursor to a position, its sign in the lowest bit. -/
def relativeOffset (cursor start : Nat) : UInt64 :=
  if cursor ≤ start then UInt64.ofNat (2 * (start - cursor))
  else UInt64.ofNat (2 * (cursor - start) + 1)

theorem signedValue_relativeOffset {cursor start : Nat} (hcursor : cursor < 2 ^ 63)
    (hstart : start < 2 ^ 63) : signedValue (relativeOffset cursor start) = (start : Int) - cursor := by
  rw [relativeOffset, signedValue]
  by_cases hle : cursor ≤ start
  · have hword : (UInt64.ofNat (2 * (start - cursor))).toNat = 2 * (start - cursor) := by
      rw [UInt64.toNat_ofNat', Nat.mod_eq_of_lt (by omega)]
    rw [if_pos hle, hword, if_neg (by omega)]
    omega
  · have hword : (UInt64.ofNat (2 * (cursor - start) + 1)).toNat = 2 * (cursor - start) + 1 := by
      rw [UInt64.toNat_ofNat', Nat.mod_eq_of_lt (by omega)]
    rw [if_neg hle, hword, if_pos (by omega)]
    omega

/-- The copy commands of a script, with the cursors where they stand. -/
def compile : (source target : Nat) → List Edit → List Item
  | _, _, [] => []
  | source, target, .source start length :: edits =>
    .sourceCopy length (relativeOffset source start) :: compile (start + length) target edits
  | source, target, .target start length :: edits =>
    .targetCopy length (relativeOffset target start) :: compile source (start + length) edits

/-- The length of a command is that of its item. -/
theorem Item.toNat_length_command (item : Item) :
    item.command.length.toNat = (item.length : Nat) := by
  have hle := item.length.2.2
  rw [command, UInt64.toNat_ofNat', Nat.mod_eq_of_lt (by omega)]

/-- A copy in bounds resolves to the range it was written for, wherever `SourceRead` would read. -/
theorem planStep_sourceCopy (addressing : Addressing) {sourceLength start : Nat} {walk : Walk}
    {cmd : Command} (haction : cmd.action = .sourceCopy)
    (hdelta : cmd.offsetDelta = relativeOffset walk.source start) (hsource : sourceLength ≤ maxSize)
    (hcursor : walk.source ≤ sourceLength) (hin : start + cmd.length.toNat ≤ sourceLength) :
    planStep addressing sourceLength walk cmd
      = some (.source start cmd.length.toNat,
          { walk with
            written := walk.written + cmd.length.toNat, source := start + cmd.length.toNat }) := by
  have hstart : (walk.source : Int) + signedValue cmd.offsetDelta = start := by
    unfold maxSize at hsource
    rw [hdelta, signedValue_relativeOffset (by omega) (by omega)]
    omega
  rw [planStep, haction]
  dsimp only
  rw [hstart, if_pos ⟨Int.natCast_nonneg _, by exact_mod_cast hin⟩, Int.toNat_natCast]

theorem planStep_targetCopy (addressing : Addressing) {sourceLength start : Nat} {walk : Walk}
    {cmd : Command} (haction : cmd.action = .targetCopy)
    (hdelta : cmd.offsetDelta = relativeOffset walk.target start) (hfit : walk.written ≤ maxSize)
    (hcursor : walk.target ≤ walk.written) (hin : start < walk.written) :
    planStep addressing sourceLength walk cmd
      = some (.target start cmd.length.toNat,
          { walk with
            written := walk.written + cmd.length.toNat, target := start + cmd.length.toNat }) := by
  -- the delta is relative to the cursor, so that the copy begins where it should
  have hstart : (walk.target : Int) + signedValue cmd.offsetDelta = start := by
    unfold maxSize at hfit
    rw [hdelta, signedValue_relativeOffset (by omega) (by omega)]
    omega
  rw [planStep, haction]
  dsimp only
  rw [hstart, if_pos ⟨Int.natCast_nonneg _, by exact_mod_cast hin⟩, Int.toNat_natCast]

/-- **The commands of a script resolve to it**, in both ways of addressing. -/
theorem plan_compile (addressing : Addressing) {sourceLength : Nat} (hsource : sourceLength ≤ maxSize)
    {edits : List Edit} {walk : Walk} (hwalk : walk.Inside sourceLength)
    (h : ScriptInBounds sourceLength walk.written edits)
    (hfit : walk.written + scriptLength edits ≤ maxSize) :
    plan addressing sourceLength walk ((compile walk.source walk.target edits).map Item.command)
      = some (edits.map Edit.segment) := by
  induction edits generalizing walk with
  | nil => rfl
  | cons edit edits ih =>
    obtain ⟨hedit, hrest⟩ := h
    obtain ⟨hsourceLe, htargetLe⟩ := hwalk
    rw [scriptLength, List.map_cons, List.sum_cons] at hfit
    cases edit with
    | source start length =>
      set cmd := (Item.sourceCopy length (relativeOffset walk.source start)).command with hcmd
      have hlength : cmd.length.toNat = length := Item.toNat_length_command _
      have hedit : start + cmd.length.toNat ≤ sourceLength := hlength ▸ hedit
      have hstep : planStep addressing sourceLength walk cmd = _ :=
        planStep_sourceCopy addressing rfl rfl hsource hsourceLe hedit
      -- the cursor of the source stands behind the copied range, the other stays
      have hplan := @ih
        { walk with written := walk.written + cmd.length.toNat, source := start + cmd.length.toNat }
        ⟨hedit, Nat.le_trans htargetLe (Nat.le_add_right _ _)⟩ (hlength ▸ hrest)
        (by rw [hlength, Nat.add_assoc]; exact hfit)
      rw [compile, List.map_cons, plan, ← hcmd, hstep]
      dsimp only at hplan ⊢
      rw [hlength] at hplan ⊢
      rw [hplan]
      rfl
    | target start length =>
      set cmd := (Item.targetCopy length (relativeOffset walk.target start)).command with hcmd
      have hlength : cmd.length.toNat = length := Item.toNat_length_command _
      have hstep : planStep addressing sourceLength walk cmd = _ :=
        planStep_targetCopy addressing rfl rfl (by omega) htargetLe hedit
      have hedit : start < walk.written := hedit
      -- the cursor of the target may now stand behind what was written, by an overlapping copy
      have hplan := @ih
        { walk with written := walk.written + cmd.length.toNat, target := start + cmd.length.toNat }
        ⟨hsourceLe, by dsimp only; omega⟩ (hlength ▸ hrest)
        (by rw [hlength, Nat.add_assoc]; exact hfit)
      rw [compile, List.map_cons, plan, ← hcmd, hstep]
      dsimp only at hplan ⊢
      rw [hlength] at hplan ⊢
      rw [hplan]
      rfl

/-- Copies bring no bytes along. -/
theorem compile_plain {source target : Nat} {edits : List Edit} :
    ∀ item ∈ compile source target edits, item.payload = [] ∧ item.command.action ≠ .targetRead := by
  induction edits generalizing source target with
  | nil => intro item hitem; cases hitem
  | cons edit edits ih =>
    intro item hitem
    cases edit with
    | source start length =>
      rcases List.mem_cons.mp hitem with rfl | hitem
      · exact ⟨rfl, by intro h; cases h⟩
      · exact ih item hitem
    | target start length =>
      rcases List.mem_cons.mp hitem with rfl | hitem
      · exact ⟨rfl, by intro h; cases h⟩
      · exact ih item hitem

/-- The commands append what the script does. -/
theorem totalLength_compile (source target : Nat) (edits : List Edit) :
    totalLength ((compile source target edits).map Item.command) = scriptLength edits := by
  induction edits generalizing source target with
  | nil => rfl
  | cons edit edits ih =>
    cases edit with
    | source start length =>
      rw [compile, List.map_cons, totalLength_cons, ih, Item.toNat_length_command]
      rfl
    | target start length =>
      rw [compile, List.map_cons, totalLength_cons, ih, Item.toNat_length_command]
      rfl

/-! ### The file -/

namespace Content

/-- The file up to its own checksum. -/
def body (content : Content) : Bytes :=
  content.front ++ (content.items.flatMap Item.encode
    ++ (uint32Bytes content.srcCrc ++ uint32Bytes content.targetCrc))

/-- The content with the checksum of its file. -/
def withChecksum (content : Content) : Content :=
  { content with patchCrc := calcCrc32 content.body }

theorem serialize_withChecksum (content : Content) :
    content.withChecksum.serialize = content.body ++ uint32Bytes (calcCrc32 content.body) := by
  simp only [serialize, withChecksum, footer, body, front, List.append_assoc]

end Content

/-- The content of the patch for a script. -/
def scriptContent (source : Bytes) (edits : List Edit) : Content :=
  Content.withChecksum
    { srcSize := size source
      targetSize := size (meaning source edits)
      metadata := []
      items := compile 0 0 edits
      srcCrc := calcCrc32 source
      targetCrc := calcCrc32 (meaning source edits)
      patchCrc := 0 }

/-- The patch file for a script. -/
def write (source : Bytes) (edits : List Edit) : Bytes := (scriptContent source edits).serialize

/-- What is written for a script loads as a valid patch, which does the script to every source as long
as the one it was written for; where it verifies, source and target must have the right checksums. -/
theorem exists_load_write {source : Bytes} {edits : List Edit} (hsource : source.length ≤ maxSize)
    (h : ScriptInBounds source.length 0 edits) (htarget : scriptLength edits ≤ maxSize)
    (hfile : (write source edits).length ≤ maxSize) :
    ∃ patch, loadPatchFromMemory (write source edits) = .ok (.bps patch) ∧
      patch.validate = .ok () ∧ patch.srcSize = size source ∧ patch.srcCrc = calcCrc32 source ∧
      (∀ cmd ∈ patch.commands, cmd.action ≠ .targetRead) ∧
      (∀ (S : Bytes) (options : PatchOptions), S.length = source.length →
        (options.verifyChecksums = true → calcCrc32 S = calcCrc32 source ∧
          calcCrc32 (meaning S edits) = calcCrc32 (meaning source edits)) →
        patch.apply S options = .ok (meaning S edits)) ∧
      refReplay source patch.commands = some (meaning source edits) := by
  obtain ⟨patch, hload, hsrcSize, htargetSize, -, -, hsrcCrc, htargetCrc, -, -, hcommands⟩ :=
    exists_load_content (scriptContent source edits) hfile
  have hlength : ∀ S : Bytes, S.length = source.length →
      (meaning S edits).length = scriptLength edits := by
    intro S hS
    rw [meaning, length_render_script (by rw [hS]; exact h), List.length_nil, Nat.zero_add]
  -- the loader reads back the commands that were compiled
  have hparsed : patch.commands = (compile 0 0 edits).map Item.command := by
    rw [hcommands]
    refine parseCommands_of_drop (scriptContent source edits).length_footer
      (fun item hitem => (compile_plain item hitem).1) ?_
    rw [Content.serialize]
    exact List.drop_left' rfl
  have hkinds : ∀ cmd ∈ patch.commands, cmd.action ≠ .targetRead := by
    intro cmd hcmd
    rw [hparsed] at hcmd
    obtain ⟨item, hitem, rfl⟩ := List.mem_map.mp hcmd
    exact (compile_plain item hitem).2
  -- the plan looks at no byte, so it is that of every source of this length
  have hplan : ∀ addressing, plan addressing source.length .start patch.commands
      = some (edits.map Edit.segment) := by
    intro addressing
    rw [hparsed]
    exact plan_compile addressing hsource (Walk.inside_start _) h
      (by rw [Walk.start, Nat.zero_add]; exact htarget)
  have htotal : totalLength patch.commands ≤ maxSize := by
    rw [hparsed, totalLength_compile]; exact htarget
  have hreplay : ∀ S : Bytes, S.length = source.length →
      ∃ st, replay patch.patchData S patch.dataOffset patch.commands = .ok st ∧
        st.output = meaning S edits := by
    intro S hS
    rw [replay_eq_ok_iff (by rw [hS]; exact hsource) hkinds htotal, hS, hplan, Option.map_some, meaning]
  -- every check passes: the sizes in the header are those of the two files
  have happly : ∀ (S : Bytes) (options : PatchOptions), S.length = source.length →
      (options.verifyChecksums = true → calcCrc32 S = calcCrc32 source ∧
        calcCrc32 (meaning S edits) = calcCrc32 (meaning source edits)) →
      patch.apply S options = .ok (meaning S edits) := by
    intro S options hS hcrcs
    obtain ⟨st, hrun, hout⟩ := hreplay S hS
    rw [BPSPatch.apply_eq_ok_iff]
    refine ⟨?_, ?_, fun hverify => (hcrcs hverify).2.trans htargetCrc.symm⟩
    · rintro (hsize | ⟨hverify, hcrc⟩)
      · exact hsize (by rw [hsrcSize, size, hS]; rfl)
      · exact hcrc ((hcrcs hverify).1.trans hsrcCrc.symm)
    · have hsize : size (meaning S edits) = patch.targetSize := by
        rw [htargetSize, size, hlength S hS, ← hlength source rfl]
        rfl
      have hfit : patch.targetSize.toNat ≤ maxSize := by
        rw [← hsize, toNat_size ((hlength S hS).trans_le htarget), hlength S hS]
        exact htarget
      rw [BPSPatch.replayTarget, reserve, if_pos hfit, Outcome.ok_bind, hrun, Outcome.ofExcept_ok,
        Outcome.ok_bind, hout, if_neg (not_not.mpr hsize)]
  have hloaded : loadPatchFromMemory (write source edits) = .ok (.bps patch) :=
    loadPatchFromMemory_eq_ok_iff.mpr hload
  have hvalid : patch.validate = .ok () := by
    rcases BPSPatch.validate_cases hload with ⟨-, hvalid⟩ | ⟨hresidue, -⟩
    · exact hvalid
    · refine absurd ?_ hresidue
      rw [scriptContent, Content.serialize_withChecksum]
      exact (calcCrc32_append_eq_residue_iff _ _).mpr rfl
  refine ⟨patch, hloaded, hvalid, hsrcSize, hsrcCrc, hkinds, happly, ?_⟩
  rw [refReplay_eq, hplan, Option.map_some, meaning]

/-- **What is written for a script means the script.** For every source and every script in bounds,
where source, target and file fit a vector: the file loads and is valid; the patch makes of the source
what the script does, verified or not; so does the format's own interpreter of the commands; and on
files `validate_patch` accepts it for the source, and `apply_patch` writes the target, and nothing
else. -/
theorem write_turns {source : Bytes} {edits : List Edit} (hsource : source.length ≤ maxSize)
    (h : ScriptInBounds source.length 0 edits) (htarget : scriptLength edits ≤ maxSize)
    (hfile : (write source edits).length ≤ maxSize) :
    ∃ patch, loadPatchFromMemory (write source edits) = .ok (.bps patch) ∧
      patch.validate = .ok () ∧
      (∀ options, patch.apply source options = .ok (meaning source edits)) ∧
      refReplay source patch.commands = some (meaning source edits) ∧
      ∀ (patchPath sourcePath outputPath : Path) (options : PatchOptions) (world : World),
        world.files patchPath = some (write source edits) → world.files sourcePath = some source →
          (validatePatch {} patchPath sourcePath options world).1 = .ok () ∧
          ∃ n, applyPatch {} patchPath sourcePath outputPath options world
            = (.ok (), ({ world with reads := n } : World).put outputPath
                (meaning source edits)) := by
  obtain ⟨patch, hload, hvalid, hsrcSize, hsrcCrc, -, hmakes, hreference⟩ :=
    exists_load_write hsource h htarget hfile
  have happly : ∀ options, patch.apply source options = .ok (meaning source edits) :=
    fun options => hmakes source options rfl fun _ => ⟨rfl, rfl⟩
  refine ⟨patch, hload, hvalid, happly, hreference, ?_⟩
  intro patchPath sourcePath outputPath options world hpatch hsourceFile
  constructor
  · rw [validatePatch_eq_ok_iff hload hvalid hpatch hsourceFile]
    exact ⟨fun _ => hsrcSize.symm, hsrcCrc.symm⟩
  · exact applyPatch_of_makes patchPath sourcePath outputPath options world
      ⟨_, _, source, hpatch, hload, hsourceFile, happly options⟩

/-- A byte of the source, then a run of it by an overlapping copy, then the whole source. -/
theorem write_turns_overlapping :
    ∃ patch, loadPatchFromMemory (write [7, 8]
        [.source 1 ⟨1, by decide⟩, .target 0 ⟨3, by decide⟩, .source 0 ⟨2, by decide⟩])
          = .ok (.bps patch) ∧
      patch.apply [7, 8] {} = .ok [8, 8, 8, 8, 7, 8] := by
  have hin : ScriptInBounds 2 0
      [.source 1 ⟨1, by decide⟩, .target 0 ⟨3, by decide⟩, .source 0 ⟨2, by decide⟩] :=
    ⟨by show 1 + 1 ≤ 2; decide, by show 0 < 0 + 1; decide, by show 0 + 2 ≤ 2; decide, trivial⟩
  obtain ⟨patch, hload, -, happly, -⟩ := write_turns (show ([7, 8] : Bytes).length ≤ maxSize by decide)
    hin (by decide) (by decide +kernel)
  exact ⟨patch, hload, happly {}⟩

end IUBPatch.BPS
