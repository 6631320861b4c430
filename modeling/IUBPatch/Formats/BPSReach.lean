import IUBPatch.Formats.BPSWriter

/-! # Where the bytes of a BPS target come from

A replay makes no bytes of its own: each byte of the output is one of the source, or one of the patch
between the metadata and the checksums, and the latter only by a `TargetRead`. So what patches without
`TargetRead` can make of a source are the targets of its bytes, and those they all can make. -/

namespace IUBPatch.BPS

/-- The bytes of a patch between the metadata and the checksums. -/
def commandRegion (patchData : Bytes) (dataOffset : Nat) : Bytes :=
  (patchData.take (patchData.length - 12)).drop dataOffset

/-- The byte is one of the source, or one of the command region if a `TargetRead` is among the
commands. -/
def ComesFrom (patchData source : Bytes) (dataOffset : Nat) (commands : List Command) (b : Byte) :
    Prop :=
  b ∈ source ∨ (∃ cmd ∈ commands, cmd.action = .targetRead) ∧ b ∈ commandRegion patchData dataOffset

theorem mem_of_mem_slice {data : Bytes} {start length : Nat} {b : Byte}
    (h : b ∈ slice data start length) : b ∈ data :=
  List.mem_of_mem_drop (List.mem_of_mem_take h)

/-- Bytes from behind the metadata and before the checksums are bytes of the command region. -/
theorem mem_commandRegion_of_mem_slice {patchData : Bytes} {dataOffset start length : Nat} {b : Byte}
    (hstart : dataOffset ≤ start) (hend : start + length ≤ patchData.length - 12)
    (h : b ∈ slice patchData start length) : b ∈ commandRegion patchData dataOffset := by
  have hregion : slice patchData start length
      = ((commandRegion patchData dataOffset).drop (start - dataOffset)).take length := by
    rw [commandRegion, List.drop_drop, Nat.add_sub_cancel' hstart, List.drop_take, List.take_take,
      slice, Nat.min_eq_left (by omega)]
  rw [hregion] at h
  exact List.mem_of_mem_drop (List.mem_of_mem_take h)

/-- `TargetCopy` appends bytes of the output. -/
theorem mem_of_targetCopyLoop {offset i : UInt64} {remaining : Nat} {output extended : Bytes}
    (h : targetCopyLoop offset remaining i output = .ok extended) :
    ∀ b ∈ extended, b ∈ output := by
  induction remaining generalizing i output with
  | zero => cases h; exact fun _ hb => hb
  | succ remaining ih =>
    rw [targetCopyLoop] at h
    split at h
    · cases h
    · rename_i byte hbyte
      intro b hb
      rcases List.mem_append.mp (ih h b hb) with hold | hnew
      · exact hold
      · rw [List.mem_singleton.mp hnew]
        exact List.mem_of_getElem? hbyte

/-- What holds of the locals of `apply` along a replay: the output is made of bytes there already, and
the patch data cursor is behind the metadata. -/
structure OutputSourced (patchData source : Bytes) (dataOffset : Nat) (executed : List Command)
    (st : ReplayState) : Prop where
  bounds : GrowthInvariant patchData source executed st
  sourced : ∀ b ∈ st.output, ComesFrom patchData source dataOffset executed b
  cursor : dataOffset ≤ st.patchDataOffset.toNat

section Step

variable {patchData source : Bytes} {dataOffset : Nat} {executed : List Command}
  {st st' : ReplayState} {cmd : Command}

/-- More commands, more sources. -/
theorem ComesFrom.append {b : Byte} (h : ComesFrom patchData source dataOffset executed b) :
    ComesFrom patchData source dataOffset (executed ++ [cmd]) b := by
  rcases h with hsource | ⟨⟨c, hc, haction⟩, hregion⟩
  · exact .inl hsource
  · exact .inr ⟨⟨c, List.mem_append_left _ hc, haction⟩, hregion⟩

/-- **One command** appends bytes of the source, of the command region or of the output. -/
theorem OutputSourced.step (hpatch : patchData.length ≤ maxSize) (hlong : 12 ≤ patchData.length)
    (hsource : source.length ≤ maxSize)
    (inv : OutputSourced patchData source dataOffset executed st)
    (h : execCommand patchData source st cmd = .ok st') :
    OutputSourced patchData source dataOffset (executed ++ [cmd]) st' := by
  obtain ⟨hbounds, hsourced, hcursor⟩ := inv
  refine ⟨hbounds.step hpatch hlong hsource h, ?_, ?_⟩
  · -- the output before, and what the command appends to it
    have happend : ∀ appended : Bytes, (∀ b ∈ appended,
        ComesFrom patchData source dataOffset (executed ++ [cmd]) b) →
        ∀ b ∈ st.output ++ appended, ComesFrom patchData source dataOffset (executed ++ [cmd]) b := by
      intro appended hnew b hb
      rcases List.mem_append.mp hb with hb | hb
      · exact (hsourced b hb).append
      · exact hnew b hb
    cases haction : cmd.action with
    | sourceRead =>
      rw [execCommand, haction] at h
      dsimp only at h
      split at h
      · cases h
      · cases h
        exact happend _ fun b hb => .inl (mem_of_mem_slice hb)
    | targetRead =>
      rw [execCommand_targetRead haction hpatch hlong
        (le_trans hbounds.patch_le (Nat.sub_le _ _))] at h
      split at h
      · rename_i hin
        cases h
        refine happend _ fun b hb => .inr ⟨⟨cmd, List.mem_append_right _ List.mem_cons_self, haction⟩, ?_⟩
        exact mem_commandRegion_of_mem_slice hcursor hin hb
      · cases h
    | sourceCopy =>
      rw [execCommand, haction] at h
      dsimp only at h
      split at h
      · cases h
      · cases h
        exact happend _ fun b hb => .inl (mem_of_mem_slice hb)
    | targetCopy =>
      obtain ⟨hcopy, -, -⟩ := exists_targetCopyLoop_of_execCommand haction h
      intro b hb
      exact (hsourced b (mem_of_targetCopyLoop hcopy b hb)).append
  · -- only `TargetRead` moves the cursor, and forward
    cases haction : cmd.action with
    | sourceRead =>
      rw [execCommand, haction] at h
      dsimp only at h
      split at h <;> cases h
      exact hcursor
    | targetRead =>
      rw [execCommand_targetRead haction hpatch hlong
        (le_trans hbounds.patch_le (Nat.sub_le _ _))] at h
      split at h
      · cases h
        have hword : st.patchDataOffset.toNat ≤ maxSize :=
          le_trans (le_trans hbounds.patch_le (Nat.sub_le _ _)) hpatch
        show dataOffset ≤ (st.patchDataOffset + cmd.length).toNat
        rw [toNat_add_length hword]
        exact Nat.le_trans hcursor (Nat.le_add_right _ _)
      · cases h
    | sourceCopy =>
      rw [execCommand, haction] at h
      dsimp only at h
      split at h <;> cases h
      exact hcursor
    | targetCopy =>
      obtain ⟨-, -, hkept⟩ := exists_targetCopyLoop_of_execCommand haction h
      rw [hkept]
      exact hcursor

end Step

/-- **No byte from nowhere**: every byte of a target that an accepted patch makes, verified or not, is a
byte of the source, or, if the patch has a `TargetRead`, one of the patch between the metadata and the
checksums. -/
theorem output_comesFrom {P S T : Bytes} {patch : BPSPatch} (hP : P.length ≤ maxSize)
    (hload : BPSPatch.load P = .ok patch) (hS : S.length ≤ maxSize) {options : PatchOptions}
    (h : patch.apply S options = .ok T) :
    ∀ b ∈ T, ComesFrom P S patch.dataOffset patch.commands b := by
  obtain ⟨hlong, hdata, -⟩ := BPSPatch.load_eq_ok hload
  obtain ⟨-, hreplayed, -⟩ := (BPSPatch.apply_eq_ok_iff patch S T options).mp h
  rw [BPSPatch.replayTarget] at hreplayed
  obtain ⟨-, -, hreplayed⟩ := Outcome.bind_eq_ok_iff.mp hreplayed
  obtain ⟨st, hrun, hreplayed⟩ := Outcome.bind_eq_ok_iff.mp hreplayed
  have hrun := Outcome.ofExcept_eq_ok_iff.mp hrun
  rw [hdata] at hrun
  split at hreplayed
  · cases hreplayed
  · cases hreplayed
    -- without commands there may be no command region, but then nothing is made either
    by_cases hempty : patch.commands = []
    · rw [hempty] at hrun
      cases hrun
      intro b hb
      cases hb
    · have hregion := BPSPatch.dataOffset_le_of_load hload hempty
      have hinit : OutputSourced P S patch.dataOffset [] (ReplayState.init patch.dataOffset) := by
        refine ⟨(replayInvariant_init S hP hregion).growth, fun b hb => absurd hb List.not_mem_nil, ?_⟩
        unfold maxSize at hP
        show patch.dataOffset ≤ (UInt64.ofNat patch.dataOffset).toNat
        rw [UInt64.toNat_ofNat', Nat.mod_eq_of_lt (by omega)]
      exact (FallibleFold.run_invariant (fun done s => OutputSourced P S patch.dataOffset done s)
        (fun done cmd s t hs hstep => hs.step hP (by omega) hS hstep) hinit hrun).sourced

/-! ### What can be reached without `TargetRead` -/

/-- The script that copies the source byte by byte from the places given. -/
def placeScript (starts : List Nat) : List Edit := starts.map fun start => .source start ⟨1, by decide⟩

theorem scriptLength_placeScript (starts : List Nat) :
    scriptLength (placeScript starts) = starts.length := by
  induction starts with
  | nil => rfl
  | cons start starts ih =>
    have hcons : scriptLength (placeScript (start :: starts))
        = 1 + scriptLength (placeScript starts) := rfl
    rw [hcons, ih, List.length_cons, Nat.add_comm]

theorem placeScript_inBounds {n : Nat} {starts : List Nat} (h : ∀ start ∈ starts, start < n)
    (written : Nat) : ScriptInBounds n written (placeScript starts) := by
  induction starts generalizing written with
  | nil => trivial
  | cons start starts ih =>
    exact ⟨h start List.mem_cons_self,
      ih (fun other hother => h other (List.mem_cons_of_mem start hother)) (written + 1)⟩

/-- The script makes the bytes at its places. -/
theorem meaning_placeScript {S : Bytes} {starts : List Nat} (h : ∀ start ∈ starts, start < S.length) :
    meaning S (placeScript starts) = starts.map fun start => S.getD start 0 := by
  -- what is there already only grows at its end
  suffices general : ∀ out : Bytes, render S out ((placeScript starts).map Edit.segment)
      = out ++ starts.map fun start => S.getD start 0 from general []
  induction starts with
  | nil => intro out; exact (List.append_nil out).symm
  | cons start starts ih =>
    intro out
    have hstart := h start List.mem_cons_self
    have hbyte : slice S start 1 = [S.getD start 0] := by
      rw [slice, List.drop_eq_getElem_cons hstart, List.getD_eq_getElem _ _ hstart,
        List.take_succ_cons, List.take_zero]
    have hfirst : render S out ((placeScript (start :: starts)).map Edit.segment)
        = render S (out ++ slice S start 1) ((placeScript starts).map Edit.segment) := rfl
    rw [hfirst, ih (fun other hother => h other (List.mem_cons_of_mem start hother)), hbyte,
      List.append_assoc]
    rfl

/-- Where the source first has each byte of a target. -/
def firstPlaces (S T : Bytes) : List Nat := T.map S.idxOf

theorem lt_of_mem_firstPlaces {S T : Bytes} (h : ∀ b ∈ T, b ∈ S) :
    ∀ start ∈ firstPlaces S T, start < S.length := by
  intro start hstart
  obtain ⟨b, hb, rfl⟩ := List.mem_map.mp hstart
  exact List.idxOf_lt_length_of_mem (h b hb)

/-- The bytes at these places are the target. -/
theorem map_firstPlaces {S T : Bytes} (h : ∀ b ∈ T, b ∈ S) :
    (firstPlaces S T).map (fun start => S.getD start 0) = T := by
  rw [firstPlaces, List.map_map]
  refine (List.map_congr_left fun b hb => ?_).trans (List.map_id T)
  have hlt := List.idxOf_lt_length_of_mem (h b hb)
  rw [Function.comp_apply, List.getD_eq_getElem _ _ hlt, List.getElem_idxOf hlt, id_eq]

/-- A compiled edit takes twenty bytes at most. -/
theorem length_encode_le (item : Item) (h : item.payload = []) : item.encode.length ≤ 20 := by
  have hencoded : item.encoded < 2 ^ 64 := item.encoded_lt
  have hnumber := length_encodeNum_le hencoded
  have hdelta := length_encodeNum_le item.delta.toNat_lt
  rw [Item.encode, h, List.append_nil, Item.numbers, List.length_append]
  split
  · omega
  · rw [List.length_nil]; omega

theorem length_flatMap_encode_le {items : List Item} (h : ∀ item ∈ items, item.payload = []) :
    (items.flatMap Item.encode).length ≤ 20 * items.length := by
  induction items with
  | nil => exact Nat.le_refl 0
  | cons item items ih =>
    have hitem := length_encode_le item (h item List.mem_cons_self)
    have hrest := ih fun other hother => h other (List.mem_cons_of_mem item hother)
    rw [List.flatMap_cons, List.length_append, List.length_cons]
    omega

theorem length_compile (source target : Nat) (edits : List Edit) :
    (compile source target edits).length = edits.length := by
  induction edits generalizing source target with
  | nil => rfl
  | cons edit edits ih => cases edit <;> rw [compile, List.length_cons, List.length_cons, ih]

/-- The file for a script is not much longer than the script. -/
theorem length_write_le (S : Bytes) (edits : List Edit) :
    (write S edits).length ≤ 20 * edits.length + 46 := by
  have hitems : ((scriptContent S edits).items.flatMap Item.encode).length ≤ 20 * edits.length := by
    rw [← length_compile 0 0 edits]
    exact length_flatMap_encode_le fun item hitem => (compile_plain item hitem).1
  have hsrc := length_encodeNum_le (scriptContent S edits).srcSize.toNat_lt
  have htarget := length_encodeNum_le (scriptContent S edits).targetSize.toNat_lt
  have hmetadata : (scriptContent S edits).metadata = [] := rfl
  have hnone := length_encodeNum_le (show 0 < 2 ^ 64 by decide)
  rw [write, Content.serialize, List.length_append, List.length_append, Content.length_footer,
    Content.front, hmetadata, List.append_nil, List.length_append, List.length_append,
    List.length_append, List.length_nil, bpsMagic]
  simp only [List.length_cons, List.length_nil]
  omega

/-- **What BPS patches can do with the bytes they have.** Every byte of a target that an accepted patch
makes is one of the source, or, if the patch has a `TargetRead`, one of the patch between the metadata
and the checksums. And some file that fits a vector loads as a patch without `TargetRead` that turns
the source into the target exactly if every byte of the target is one of the source; the target is no
longer than `2^58` bytes, so that the file that copies it byte by byte fits a vector. -/
theorem exists_copyPatch_iff {S : Bytes} (hS : S.length ≤ maxSize) (options : PatchOptions) :
    (∀ P patch T, P.length ≤ maxSize → loadPatchFromMemory P = .ok (.bps patch) →
        patch.apply S options = .ok T → ∀ b ∈ T, ComesFrom P S patch.dataOffset patch.commands b) ∧
      ∀ T : Bytes, T.length ≤ 2 ^ 58 →
        ((∃ P patch, P.length ≤ maxSize ∧ loadPatchFromMemory P = .ok (.bps patch) ∧
            (∀ cmd ∈ patch.commands, cmd.action ≠ .targetRead) ∧ patch.apply S options = .ok T) ↔
          ∀ b ∈ T, b ∈ S) := by
  constructor
  · intro P patch T hP hload happly
    exact output_comesFrom hP (loadPatchFromMemory_eq_ok_iff.mp hload) hS happly
  intro T hT
  constructor
  · rintro ⟨P, patch, hP, hload, hkinds, happly⟩ b hb
    rcases output_comesFrom hP (loadPatchFromMemory_eq_ok_iff.mp hload) hS happly b hb with
      hsource | ⟨⟨cmd, hcmd, haction⟩, -⟩
    · exact hsource
    · exact absurd haction (hkinds cmd hcmd)
  · intro h
    -- copy every byte from where the source first has it, one byte a command
    have hplaces := lt_of_mem_firstPlaces h
    have hlength : (firstPlaces S T).length = T.length := List.length_map _
    have hfile : (write S (placeScript (firstPlaces S T))).length ≤ maxSize := by
      have hle := length_write_le S (placeScript (firstPlaces S T))
      rw [placeScript, List.length_map, ← placeScript, hlength] at hle
      rw [maxSize]
      omega
    obtain ⟨patch, hload, -, -, -, hkinds, happly, -⟩ := exists_load_write hS
      (placeScript_inBounds hplaces 0)
      (by rw [scriptLength_placeScript, hlength, maxSize]; omega) hfile
    have hmade := happly S options rfl fun _ => ⟨rfl, rfl⟩
    rw [meaning_placeScript hplaces, map_firstPlaces h] at hmade
    exact ⟨_, patch, hfile, hload, hkinds, hmade⟩

/-- A source of one byte reaches its repetition, and no other byte. -/
theorem exists_copyPatch_iff_oneByte :
    (∃ P patch, P.length ≤ maxSize ∧ loadPatchFromMemory P = .ok (.bps patch) ∧
        (∀ cmd ∈ patch.commands, cmd.action ≠ .targetRead) ∧ patch.apply [7] {} = .ok [7, 7]) ∧
      ¬ ∃ P patch, P.length ≤ maxSize ∧ loadPatchFromMemory P = .ok (.bps patch) ∧
        (∀ cmd ∈ patch.commands, cmd.action ≠ .targetRead) ∧ patch.apply [7] {} = .ok [8] := by
  have hreach := (exists_copyPatch_iff (show ([7] : Bytes).length ≤ maxSize by decide) {}).2
  exact ⟨(hreach [7, 7] (by simp)).mpr (by simp), fun h => by simpa using (hreach [8] (by simp)).mp h⟩

end IUBPatch.BPS
