import IUBPatch.Formats.UPSLayout
import IUBPatch.Lib.OrderedRuns
import Mathlib.Data.List.TakeWhile

/-! # The order of UPS blocks

The loader places each hunk by adding its relative offset to a 64-bit position that only ever goes
forward, until it wraps. The blocks of a patch lie in order as long as what the hunks with data take up,
distances and bytes, is less than `2^64`. -/

namespace IUBPatch.UPS

/-- The blocks lie in order: each has data, none of it zero, and ends at a 64-bit position, by the start
of the next one; so no position is in two of them. -/
structure InOrder (blocks : List XORBlock) : Prop where
  nonempty : ∀ block ∈ blocks, block.data ≠ []
  nonzero : ∀ block ∈ blocks, ∀ b ∈ block.data, b ≠ 0
  ends : ∀ block ∈ blocks, block.offset.toNat + block.data.length ≤ 2 ^ 64 - 1
  forward : blocks.IsChain fun a b => a.offset.toNat + a.data.length ≤ b.offset.toNat
  once : blocks.Pairwise fun a b => ∀ i, ¬ (a.run.Covers i ∧ b.run.Covers i)

/-! ### Hunks and where they are placed -/

/-- The bytes the inner loop of `parse` goes over: those before the checksums, from `offset` on. -/
def hunkBytes (patchData : Bytes) (offset : Nat) : Bytes :=
  (patchData.take (patchData.length - 12)).drop offset

/-- The hunk at an offset, as the loader reads it. -/
def readHunk (patchData : Bytes) (offset : Nat) : Hunk where
  relativeOffset := (decodeVariableLen patchData offset).1
  data := (hunkBytes patchData (decodeVariableLen patchData offset).2).takeWhile (· ≠ 0)
  nonzero := by
    intro b hb
    simpa using List.mem_takeWhile_imp hb

/-- Where the loader stops reading the hunk at an offset. -/
def hunkEnd (patchData : Bytes) (offset : Nat) : Nat :=
  (decodeVariableLen patchData offset).2
    + xorDataLength (hunkBytes patchData (decodeVariableLen patchData offset).2)

/-- **One turn of the outer loop** places the hunk behind the position so far, in 64 bits. -/
theorem parseBlock_eq (patchData : Bytes) (offset : Nat) (fileOffset : UInt64) :
    parseBlock patchData offset fileOffset
      = (⟨fileOffset + (readHunk patchData offset).relativeOffset, (readHunk patchData offset).data⟩,
        hunkEnd patchData offset,
        fileOffset + (readHunk patchData offset).relativeOffset
          + UInt64.ofNat (readHunk patchData offset).data.length) := by
  rw [parseBlock]
  dsimp only
  rw [xorDataLoop_eq, List.nil_append]
  rfl

theorem lt_hunkEnd {patchData : Bytes} {offset : Nat} (h : offset < patchData.length) :
    offset < hunkEnd patchData offset :=
  Nat.lt_of_lt_of_le (lt_decodeBpsNum h) (Nat.le_add_right _ _)

/-- The hunks from an offset on, as the loader reads them; those without data too. -/
def readHunks (patchData : Bytes) (offset : Nat) : List Hunk :=
  if offset + 12 < patchData.length then
    readHunk patchData offset :: readHunks patchData (hunkEnd patchData offset)
  else []
termination_by patchData.length - offset
decreasing_by
  have hnext : offset < hunkEnd patchData offset := lt_hunkEnd (by omega)
  omega

/-- The blocks of hunks that are placed from a 64-bit position on. -/
def placeHunks (fileOffset : UInt64) : List Hunk → List XORBlock
  | [] => []
  | hunk :: hunks =>
    let blocks :=
      placeHunks (fileOffset + hunk.relativeOffset + UInt64.ofNat hunk.data.length) hunks
    if hunk.data.isEmpty then blocks else ⟨fileOffset + hunk.relativeOffset, hunk.data⟩ :: blocks

/-- **The outer loop places the hunks it reads.** -/
theorem parseBlocks_eq (patchData : Bytes) (offset : Nat) (fileOffset : UInt64) :
    parseBlocks patchData offset fileOffset = placeHunks fileOffset (readHunks patchData offset) := by
  induction offset using readHunks.induct patchData generalizing fileOffset with
  | case1 offset hrunning ih =>
    rw [parseBlocks, if_pos hrunning, readHunks, if_pos hrunning, placeHunks, parseBlock_eq]
    dsimp only
    rw [ih]
  | case2 offset hends => rw [parseBlocks, if_neg hends, readHunks, if_neg hends, placeHunks]

/-! ### What hunks take up -/

/-- What hunks take up: every hunk with data its bytes, and its distance from the data before it. That
is the sum of the relative offsets since, reduced to 64 bits; `distance` is that of the hunks without
data so far. -/
def extent (distance : UInt64) : List Hunk → Nat
  | [] => 0
  | hunk :: hunks =>
    let distance := distance + hunk.relativeOffset
    if hunk.data.isEmpty then extent distance hunks
    else distance.toNat + hunk.data.length + extent 0 hunks

/-- Every block has the data of a hunk, and some. -/
theorem exists_hunk_of_mem_placeHunks {fileOffset : UInt64} {hunks : List Hunk} {block : XORBlock}
    (h : block ∈ placeHunks fileOffset hunks) :
    ∃ hunk : Hunk, block.data = hunk.data ∧ hunk.data ≠ [] := by
  induction hunks generalizing fileOffset with
  | nil => cases h
  | cons hunk hunks ih =>
    rw [placeHunks] at h
    split at h
    · exact ih h
    · rename_i hnonempty
      rcases List.mem_cons.mp h with rfl | h
      · exact ⟨hunk, rfl, fun hnil => hnonempty (List.isEmpty_iff.mpr hnil)⟩
      · exact ih h

/-- Runs in order from a position on, none of which ends past the last 64-bit position. -/
def Placed (base : Nat) (blocks : List XORBlock) : Prop :=
  Run.InOrder base (blocks.map XORBlock.run) ∧
    ∀ block ∈ blocks, block.offset.toNat + block.data.length ≤ 2 ^ 64 - 1

theorem placed_cons_iff {base : Nat} {block : XORBlock} {blocks : List XORBlock} :
    Placed base (block :: blocks) ↔
      base ≤ block.offset.toNat ∧ block.offset.toNat + block.data.length < 2 ^ 64 ∧
        Placed (block.offset.toNat + block.data.length) blocks := by
  rw [Placed, Placed, List.map_cons, Run.InOrder, List.forall_mem_cons]
  constructor
  · rintro ⟨⟨hbase, horder⟩, hend, hends⟩
    exact ⟨hbase, by omega, horder, hends⟩
  · rintro ⟨hbase, hend, horder, hends⟩
    exact ⟨⟨hbase, horder⟩, by omega, hends⟩

/-- **When hunks are placed in order**: behind a position `base` of the file, exactly if that and what
they take up is below `2^64`. -/
theorem placed_placeHunks_iff (hunks : List Hunk) {base : Nat} (hbase : base < 2 ^ 64)
    (distance : UInt64) :
    Placed base (placeHunks (UInt64.ofNat base + distance) hunks) ↔
      base + extent distance hunks < 2 ^ 64 := by
  induction hunks generalizing base distance with
  | nil => exact iff_of_true ⟨trivial, by simp [placeHunks]⟩ hbase
  | cons hunk hunks ih =>
    rw [placeHunks, extent, UInt64.add_assoc (UInt64.ofNat base)]
    set distance' := distance + hunk.relativeOffset
    have hdistance := distance'.toNat_lt
    by_cases hempty : hunk.data.isEmpty = true
    · -- a hunk without data only adds to the distance
      have hnone : hunk.data.length = 0 := by rw [List.isEmpty_iff.mp hempty]; rfl
      have hsame : UInt64.ofNat base + distance' + UInt64.ofNat 0 = UInt64.ofNat base + distance' :=
        UInt64.add_zero _
      rw [if_pos hempty, if_pos hempty, hnone, hsame]
      exact ih hbase distance'
    rw [if_neg hempty, if_neg hempty, placed_cons_iff]
    have hstart : (UInt64.ofNat base + distance').toNat = (base + distance'.toNat) % 2 ^ 64 := by
      rw [UInt64.toNat_add, UInt64.toNat_ofNat', Nat.mod_add_mod]
    rw [hstart]
    by_cases hfit : base + distance'.toNat + hunk.data.length < 2 ^ 64
    · -- nothing wraps, and the next hunk goes on behind this one
      have hnext : UInt64.ofNat base + distance' + UInt64.ofNat hunk.data.length
          = UInt64.ofNat (base + distance'.toNat + hunk.data.length) + 0 := by
        rw [UInt64.ofNat_add, UInt64.ofNat_add, UInt64.ofNat_toNat, UInt64.add_zero]
      rw [Nat.mod_eq_of_lt (by omega), hnext, ih hfit 0, and_iff_right (by omega),
        and_iff_right hfit, Nat.add_assoc, Nat.add_assoc, Nat.add_assoc]
    · refine iff_of_false ?_ (by omega)
      rintro ⟨hbehind, hend, -⟩
      by_cases hwraps : base + distance'.toNat < 2 ^ 64
      · rw [Nat.mod_eq_of_lt hwraps] at hend
        exact hfit hend
      · -- the start has wrapped to less than the base
        omega

/-! ### The blocks of a patch -/

/-- The blocks of an accepted patch are its hunks, placed from the start of the file on. -/
theorem blocks_of_load {P : Bytes} {patch : UPSPatch} (h : UPSPatch.load P = .ok patch) :
    patch.blocks = placeHunks 0 (readHunks P (hunksOffset P)) := by
  obtain ⟨hlong, -, hparse⟩ := UPSPatch.load_eq_ok h
  rw [UPSPatch.parse, if_neg hlong] at hparse
  cases hparse
  exact parseBlocks_eq P (hunksOffset P) 0

/-- Placed blocks lie in order exactly if they do from the start of the file on. -/
theorem inOrder_placeHunks_iff {fileOffset : UInt64} {hunks : List Hunk} :
    InOrder (placeHunks fileOffset hunks) ↔ Placed 0 (placeHunks fileOffset hunks) := by
  rw [Placed, Run.inOrder_zero_iff_isChain, List.isChain_map]
  constructor
  · rintro ⟨-, -, hends, hforward, -⟩
    exact ⟨hforward, hends⟩
  · rintro ⟨hforward, hends⟩
    constructor
    case nonempty =>
      intro block hblock
      obtain ⟨hunk, hdata, hne⟩ := exists_hunk_of_mem_placeHunks hblock
      rw [hdata]
      exact hne
    case nonzero =>
      intro block hblock
      obtain ⟨hunk, hdata, -⟩ := exists_hunk_of_mem_placeHunks hblock
      rw [hdata]
      exact hunk.nonzero
    case ends => exact hends
    case forward => exact hforward
    case once =>
      have horder := Run.inOrder_zero_iff_isChain.mpr ((List.isChain_map XORBlock.run).mpr hforward)
      exact List.pairwise_map.mp horder.pairwise

/-- **When the blocks of a patch lie in order.** For every accepted patch: exactly if what its hunks take
up, their bytes and the distances between those with data, is less than `2^64`. -/
theorem load_inOrder_iff {P : Bytes} {patch : UPSPatch} (hload : UPSPatch.load P = .ok patch) :
    InOrder patch.blocks ↔ extent 0 (readHunks P (hunksOffset P)) < 2 ^ 64 := by
  have hzero : (0 : Nat) < 2 ^ 64 := by decide
  have hplaced := placed_placeHunks_iff (readHunks P (hunksOffset P)) hzero 0
  rw [Nat.zero_add] at hplaced
  rw [blocks_of_load hload, inOrder_placeHunks_iff]
  exact hplaced

/-- A patch of two hunks of one byte: at position 5, and `2^64 - 6` behind that. -/
def backwardHunk : Bytes :=
  upsMagic ++ [0x80, 0x80] ++ [0x85, 0x01, 0x00]
    ++ [0x7A, 0x7E, 0x7E, 0x7E, 0x7E, 0x7E, 0x7E, 0x7E, 0x7E, 0x80, 0x02, 0x00] ++ List.replicate 12 0

/-- The position of the second hunk wraps to 0, before the first one. -/
theorem not_load_inOrder :
    ∃ patch, UPSPatch.load backwardHunk = .ok patch ∧ patch.blocks = [⟨5, [1]⟩, ⟨0, [2]⟩] ∧
      ¬ InOrder patch.blocks := by
  refine ⟨⟨backwardHunk, 0, 0, 0, 0, 0, [⟨5, [1]⟩, ⟨0, [2]⟩]⟩, by decide +kernel, rfl, fun h => ?_⟩
  have hforward := h.forward
  revert hforward
  decide

/-- Two hunks of one byte, the second one right behind the first. -/
theorem load_inOrder_twoHunks :
    ∃ patch, UPSPatch.load (upsMagic ++ [0x82, 0x82, 0x80, 0x01, 0x00, 0x80, 0x02, 0x00]
        ++ List.replicate 12 0) = .ok patch ∧ InOrder patch.blocks := by
  obtain ⟨patch, hload⟩ : ∃ patch, UPSPatch.load (upsMagic
      ++ [0x82, 0x82, 0x80, 0x01, 0x00, 0x80, 0x02, 0x00] ++ List.replicate 12 0) = .ok patch :=
    load_eq_ok_iff.mpr ⟨by decide, by decide⟩
  exact ⟨patch, hload, (load_inOrder_iff hload).mpr (by decide +kernel)⟩

end IUBPatch.UPS
