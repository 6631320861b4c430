import IUBPatch.Formats.UPSDialect

/-! # UPS patches as masks

Without verification a UPS patch brings a source to its target size and XORs a mask into it. So patches
with one target size can be applied in any order, and all of them be made into one file. -/

namespace IUBPatch.UPS

/-- The blocks of one patch behind those of another XOR both masks. -/
theorem mask_append (blocks more : List XORBlock) (i : Nat) :
    mask (blocks ++ more) i = mask blocks i ^^^ mask more i := by
  induction blocks with
  | nil => simp [mask]
  | cons block blocks ih =>
    simp only [mask, List.map_append] at ih
    simp only [mask, List.cons_append, List.map_cons, List.map_append, Run.overlay_cons, ih]
    exact (UInt8.xor_assoc _ _ _).symm

/-- `data` brought to a size, with the mask of `blocks` XORed in. -/
def maskedTo (n : Nat) (blocks : List XORBlock) (data : Bytes) : Bytes :=
  (List.range n).map fun i => data.getD i 0 ^^^ mask blocks i

@[simp] theorem length_maskedTo (n : Nat) (blocks : List XORBlock) (data : Bytes) :
    (maskedTo n blocks data).length = n := by
  rw [maskedTo, List.length_map, List.length_range]

theorem getD_maskedTo {n i : Nat} (hi : i < n) (blocks : List XORBlock) (data : Bytes) :
    (maskedTo n blocks data).getD i 0 = data.getD i 0 ^^^ mask blocks i := by
  rw [List.getD_eq_getElem _ _ (by rwa [length_maskedTo])]
  simp only [maskedTo, List.getElem_map, List.getElem_range]

/-- Two masks one after the other, at one size, are one. -/
theorem maskedTo_maskedTo (n : Nat) (blocks more : List XORBlock) (data : Bytes) :
    maskedTo n more (maskedTo n blocks data) = maskedTo n (blocks ++ more) data := by
  refine List.map_congr_left fun i hi => ?_
  rw [getD_maskedTo (List.mem_range.mp hi), mask_append, UInt8.xor_assoc]

/-- **Masks can be told apart** by what they make of one source. -/
theorem maskedTo_eq_iff {n : Nat} {blocks more : List XORBlock} (data : Bytes) :
    maskedTo n blocks data = maskedTo n more data ↔ ∀ i < n, mask blocks i = mask more i := by
  constructor
  · intro h i hi
    have hbyte := congrArg (fun made : Bytes => made.getD i 0) h
    rwa [getD_maskedTo hi, getD_maskedTo hi, UInt8.xor_right_inj] at hbyte
  · intro h
    rw [maskedTo, maskedTo]
    exact List.map_congr_left fun i hi => by rw [h i (List.mem_range.mp hi)]

end IUBPatch.UPS

namespace IUBPatch.UPSPatch

open UPS

theorem target_eq_maskedTo (patch : UPSPatch) (source : Bytes) :
    patch.target source = maskedTo patch.targetSize.toNat patch.blocks source := rfl

/-- **When two patches do the same.** For target sizes that fit a vector: without verification they make
the same of every source exactly if they declare one target size and their blocks leave the same mask
below it. -/
theorem sameTargets_iff {p q : UPSPatch} (hp : p.targetSize.toNat ≤ maxSize)
    (hq : q.targetSize.toNat ≤ maxSize) {options : PatchOptions}
    (hoff : options.verifyChecksums = false) :
    (∀ source : Bytes, source.length ≤ maxSize → p.apply source options = q.apply source options) ↔
      p.targetSize = q.targetSize ∧
        ∀ i < p.targetSize.toNat, mask p.blocks i = mask q.blocks i := by
  have htargets : ∀ source : Bytes, source.length ≤ maxSize →
      (p.apply source options = q.apply source options ↔ p.target source = q.target source) := by
    intro source hsource
    rw [apply_unverified hp hsource hoff, apply_unverified hq hsource hoff, Outcome.ok.injEq]
  constructor
  · intro h
    -- the empty source alone shows the size and the mask
    have hempty := (htargets [] (Nat.zero_le _)).mp (h [] (Nat.zero_le _))
    have hsize : p.targetSize = q.targetSize := by
      have hlength := congrArg List.length hempty
      rwa [length_target, length_target, UInt64.toNat_inj] at hlength
    rw [target_eq_maskedTo, target_eq_maskedTo, hsize, maskedTo_eq_iff [], ← hsize] at hempty
    exact ⟨hsize, hempty⟩
  · rintro ⟨hsize, hmask⟩ source hsource
    rw [htargets source hsource, target_eq_maskedTo, target_eq_maskedTo, ← hsize]
    exact (maskedTo_eq_iff source).mpr hmask

/-- Two blocks at one position, and their XOR. -/
theorem sameTargets_iff_oneByte :
    apply ⟨[], 1, 1, 0, 0, 0, [⟨0, [1]⟩, ⟨0, [2]⟩]⟩ [7, 8] { verifyChecksums := false }
      = apply ⟨[], 1, 1, 0, 0, 0, [⟨0, [3]⟩]⟩ [7, 8] { verifyChecksums := false } := by
  have hmask : ∀ i < 1, mask [⟨0, [1]⟩, ⟨0, [2]⟩] i = mask [⟨0, [3]⟩] i := by decide
  exact (sameTargets_iff (p := ⟨[], 1, 1, 0, 0, 0, [⟨0, [1]⟩, ⟨0, [2]⟩]⟩)
    (q := ⟨[], 1, 1, 0, 0, 0, [⟨0, [3]⟩]⟩) (by decide) (by decide) rfl).mpr ⟨rfl, hmask⟩ [7, 8]
      (by decide)

/-- Apply patches one after the other. -/
def applyAll (patches : List UPSPatch) (source : Bytes) (options : PatchOptions) : Call Bytes :=
  patches.foldlM (fun data patch => patch.apply data options) source

/-- Patches of one target size, applied to data of that size, XOR all their masks into it. -/
theorem applyAll_of_length {patches : List UPSPatch} {n : Nat} (hn : n ≤ maxSize)
    (hsize : ∀ patch ∈ patches, patch.targetSize.toNat = n) {data : Bytes} (hdata : data.length = n)
    {options : PatchOptions} (hoff : options.verifyChecksums = false) :
    applyAll patches data options = .ok (maskedTo n (patches.flatMap blocks) data) := by
  induction patches generalizing data with
  | nil =>
    -- no patches leave the data, which has the size already
    have hsame : maskedTo n [] data = data := by
      apply List.ext_getElem (by rw [length_maskedTo, hdata])
      intro i h₁ h₂
      simp [maskedTo, mask, h₂]
    rw [List.flatMap_nil, hsame]
    rfl
  | cons patch patches ih =>
    obtain ⟨hfirst, hrest⟩ := List.forall_mem_cons.mp hsize
    rw [applyAll, List.foldlM_cons,
      apply_unverified (hfirst.trans_le hn) (hdata.trans_le hn) hoff, Outcome.ok_bind, ← applyAll,
      ih hrest ((length_target patch data).trans hfirst), target_eq_maskedTo, hfirst,
      maskedTo_maskedTo, List.flatMap_cons]

/-- The first patch brings any source to the target size. -/
theorem applyAll_eq {patches : List UPSPatch} (hne : patches ≠ []) {n : Nat} (hn : n ≤ maxSize)
    (hsize : ∀ patch ∈ patches, patch.targetSize.toNat = n) {source : Bytes}
    (hsource : source.length ≤ maxSize) {options : PatchOptions}
    (hoff : options.verifyChecksums = false) :
    applyAll patches source options = .ok (maskedTo n (patches.flatMap blocks) source) := by
  cases patches with
  | nil => exact absurd rfl hne
  | cons patch patches =>
    obtain ⟨hfirst, hrest⟩ := List.forall_mem_cons.mp hsize
    rw [applyAll, List.foldlM_cons, apply_unverified (hfirst.trans_le hn) hsource hoff,
      Outcome.ok_bind, ← applyAll,
      applyAll_of_length hn hrest ((length_target patch source).trans hfirst) hoff,
      target_eq_maskedTo, hfirst, maskedTo_maskedTo, List.flatMap_cons]

/-- **Patches of one target size in one file, and in any order.** One patch or more, with a target size
that a vector can have, and sources that fit one: applied to a source one after the other, without
verification, the patches make a target; the file between the two loads as a valid patch that turns the
one into the other, verified or not; and it does to every other source, of whatever size, what the
patches do in whatever order. -/
theorem merged_inAnyOrder {patches : List UPSPatch} (hne : patches ≠ []) {n : Nat} (hn : n ≤ maxSize)
    (hsize : ∀ patch ∈ patches, patch.targetSize.toNat = n) {S : Bytes} (hS : S.length ≤ maxSize)
    {options : PatchOptions} (hoff : options.verifyChecksums = false) :
    ∃ T merged, applyAll patches S options = .ok T ∧
      loadPatchFromMemory (between S T).serialize = .ok (.ups merged) ∧ merged.validate = .ok () ∧
      (∀ options, merged.apply S options = .ok T) ∧
      ∀ patches', patches'.Perm patches → ∀ source : Bytes, source.length ≤ maxSize →
        applyAll patches' source options = merged.apply source options := by
  have hmade := applyAll_eq hne hn hsize hS hoff
  set T := maskedTo n (patches.flatMap blocks) S with hT
  have hlength : T.length = n := length_maskedTo _ _ _
  have hfit : T.length ≤ maxSize := hlength.trans_le hn
  obtain ⟨hload, hvalid⟩ := load_serialized (between S T)
  have hturns := apply_between hS hfit
  refine ⟨T, (between S T).patch, hmade, hload, hvalid, hturns, ?_⟩
  intro patches' hperm source hsource
  have htargetSize : (between S T).patch.targetSize.toNat = n := (toNat_size hfit).trans hlength
  -- the file has the mask of all patches, since it makes the same of `S`
  have hmask : ∀ i < n, mask (between S T).patch.blocks i = mask (patches.flatMap blocks) i := by
    rw [← maskedTo_eq_iff S, ← hT, ← htargetSize, ← target_eq_maskedTo,
      target_between hS hfit]
  have hne' : patches' ≠ [] := fun h => hne (List.Perm.nil_eq (h ▸ hperm)).symm
  have hsize' : ∀ patch ∈ patches', patch.targetSize.toNat = n :=
    fun patch hpatch => hsize patch (hperm.mem_iff.mp hpatch)
  -- in another order the masks are the same XOR
  rw [applyAll_eq hne' hn hsize' hsource hoff,
    apply_unverified (htargetSize.trans_le hn) hsource hoff, target_eq_maskedTo, htargetSize]
  refine congrArg Outcome.ok ((maskedTo_eq_iff source).mpr fun i hi => ?_)
  rw [hmask i hi]
  exact mask_perm (hperm.flatMap_right blocks) i

/-- Two overlapping patches, in both orders. -/
theorem merged_inAnyOrder_twoPatches :
    ∃ merged : UPSPatch, merged.apply [5, 5] {} = .ok [4, 3] ∧
      applyAll [⟨[], 2, 2, 0, 0, 0, [⟨1, [4]⟩]⟩, ⟨[], 2, 2, 0, 0, 0, [⟨0, [1, 2]⟩]⟩] [5, 5]
        { verifyChecksums := false } = merged.apply [5, 5] { verifyChecksums := false } := by
  have hmade : applyAll [⟨[], 2, 2, 0, 0, 0, [⟨0, [1, 2]⟩]⟩, ⟨[], 2, 2, 0, 0, 0, [⟨1, [4]⟩]⟩] [5, 5]
      { verifyChecksums := false } = .ok [4, 3] := by decide +kernel
  have hsizes : ∀ patch ∈ ([⟨[], 2, 2, 0, 0, 0, [⟨0, [1, 2]⟩]⟩, ⟨[], 2, 2, 0, 0, 0, [⟨1, [4]⟩]⟩] :
      List UPSPatch), patch.targetSize.toNat = 2 := by decide
  have hsource : ([5, 5] : Bytes).length ≤ maxSize := by decide
  have hoff : ({ verifyChecksums := false } : PatchOptions).verifyChecksums = false := rfl
  obtain ⟨T, merged, hT, -, -, hturns, horder⟩ :=
    merged_inAnyOrder (by decide) (by decide) hsizes hsource hoff
  obtain rfl : T = [4, 3] := Outcome.ok.inj (hT.symm.trans hmade)
  exact ⟨merged, hturns {}, horder _ (List.Perm.swap ..) [5, 5] hsource⟩

end IUBPatch.UPSPatch
