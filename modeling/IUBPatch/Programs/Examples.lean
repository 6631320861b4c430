import IUBPatch.Lib.PlainText
import IUBPatch.Programs.CommandLine

/-! # The example programs

`examples/simple_patch.cc` and `examples/patch_info.cc`: they do what the commands `apply` and `info` of
the tool do. And what `info` and `patch_info` print is all the metadata there is: it can be read back. -/

namespace IUBPatch

open Program PlainText

/-! ### The programs -/

/-- `main` of `simple_patch.cc`, on the arguments behind the program's name. -/
def SimplePatch.main (env : Environment) (programName : String) : List String → Program Nat
  | [patchPath, sourcePath, outputPath] => do
    printOut "Applying patch...\n"
    printOut ("  Patch:  " ++ patchPath ++ "\n")
    printOut ("  Source: " ++ sourcePath ++ "\n")
    printOut ("  Output: " ++ outputPath ++ "\n")
    let result ← call (applyPatch env patchPath sourcePath outputPath {})
    match result with
    | .ok () => do
      printOut "Patch applied successfully!\n"
      pure 0
    | .error e => do
      printErr ("Error: " ++ e.message ++ "\n")
      if e.context ≠ "" then printErr ("Context: " ++ e.context ++ "\n") else pure ()
      pure 1
  | _ => do
    printErr ("Usage: " ++ programName ++ " <patch> <source> <output>\n")
    pure 1

namespace PatchInfo

/-- A number printed with `std::hex`, `std::setw(8)` and `std::setfill('0')`. -/
def paddedHexText (n : UInt32) : String := String.ofList (padded 8 16 n.toNat)

/-- What `main` prints of the metadata. -/
def printMetadata (metadata : PatchMetadata) : Program Unit := do
  printOut "Patch Information:\n"
  printOut ("  Format: " ++ formatToString metadata.format ++ "\n")
  printOut ("  Source Size: " ++ toString metadata.srcSize ++ " bytes\n")
  printOut ("  Target Size: " ++ toString metadata.targetSize ++ " bytes\n")
  if metadata.hasChecksums then do
    printOut ("  Source Checksum: 0x" ++ paddedHexText metadata.sourceChecksum ++ "\n")
    printOut ("  Target Checksum: 0x" ++ paddedHexText metadata.targetChecksum ++ "\n")
  else printOut "  Checksums: Not available\n"

/-- `main` of `patch_info.cc`, on the arguments behind the program's name. -/
def main (env : Environment) (programName : String) : List String → Program Nat
  | [patchPath] => do
    let info ← call (getPatchInfo env patchPath)
    match info with
    | .ok metadata => do
      printMetadata metadata
      pure 0
    | .error e => do
      printErr ("Error: " ++ e.message ++ "\n")
      pure 1
  | _ => do
    printErr ("Usage: " ++ programName ++ " <patch_file>\n")
    pure 1

end PatchInfo

/-! ### The programs and the tool -/

section Agreement

variable (version : CommandLine.Version) (env : Environment) (programName toolName : String)

theorem SimplePatch.main_comes (patchPath sourcePath outputPath : Path) :
    Comes (SimplePatch.main env programName [patchPath, sourcePath, outputPath])
      fun world => (exitCode (applyPatch env patchPath sourcePath outputPath {} world).1,
        (applyPatch env patchPath sourcePath outputPath {} world).2) := by
  refine (quiet_printOut _).bind_comes ?_
  refine (quiet_printOut _).bind_comes ?_
  refine (quiet_printOut _).bind_comes ?_
  refine (quiet_printOut _).bind_comes ?_
  refine comes_call (fun _ => (quiet_printOut _).then_pure 0) fun e => ?_
  refine (quiet_printErr _).bind ?_
  exact quiet_ite _ ((quiet_printErr _).then_pure 1) (quiet_pure 1)

theorem PatchInfo.quiet_printMetadata (metadata : PatchMetadata) :
    Quiet (printMetadata metadata) () := by
  refine (quiet_printOut _).bind ((quiet_printOut _).bind ?_)
  refine (quiet_printOut _).bind ((quiet_printOut _).bind ?_)
  exact quiet_ite _ ((quiet_printOut _).bind (quiet_printOut _)) (quiet_printOut _)

theorem PatchInfo.main_comes (patchPath : Path) :
    Comes (PatchInfo.main env programName [patchPath])
      fun world => (exitCode (getPatchInfo env patchPath world).1,
        (getPatchInfo env patchPath world).2) :=
  comes_call (fun metadata => (quiet_printMetadata metadata).then_pure 0)
    fun _ => (quiet_printErr _).then_pure 1

/-- **The example programs do what the tool does.** Whatever fails: `simple_patch` comes to the exit code
of `apply` with any options that do not switch off verification, and leaves the same files; and
`patch_info` comes to that of `info`, and leaves the same files. -/
theorem examples_agree (patchPath sourcePath outputPath : Path) {options : List String}
    (hverify : "--no-checksum" ∉ options) (more : List String) (p : Process) :
    let simple := SimplePatch.main env programName [patchPath, sourcePath, outputPath] p
    let apply := CommandLine.main version env toolName
      ("apply" :: patchPath :: sourcePath :: outputPath :: options) p
    let patchInfo := PatchInfo.main env programName [patchPath] p
    let info := CommandLine.main version env toolName ("info" :: patchPath :: more) p
    (simple.1 = apply.1 ∧ simple.2.world = apply.2.world) ∧
      patchInfo.1 = info.1 ∧ patchInfo.2.world = info.2.world := by
  intro simple apply patchInfo info
  have hsimple := SimplePatch.main_comes env programName patchPath sourcePath outputPath p
  have hpatchInfo := PatchInfo.main_comes env programName patchPath p
  have happly := CommandLine.main_comes version env toolName
    ("apply" :: patchPath :: sourcePath :: outputPath :: options) p
  have hinfo := CommandLine.main_comes version env toolName ("info" :: patchPath :: more) p
  have hrequest : CommandLine.request ("apply" :: patchPath :: sourcePath :: outputPath :: options)
      = .apply patchPath sourcePath outputPath true := by
    simp [CommandLine.request, hverify]
  rw [hrequest] at happly
  exact ⟨Prod.mk.inj (hsimple.trans happly.symm), Prod.mk.inj (hpatchInfo.trans hinfo.symm)⟩

/-- An option that is none, and one that does nothing. -/
theorem examples_agree_backup :
    (SimplePatch.main {} "simple_patch" ["patch", "file", "out"] { world := plainWorld }).2.world
      = (CommandLine.main ⟨1, 0, 0⟩ {} "iubpatch" ["apply", "patch", "file", "out", "--fast", "--backup"]
          { world := plainWorld }).2.world :=
  (examples_agree ⟨1, 0, 0⟩ {} "simple_patch" "iubpatch" "patch" "file" "out" (by decide) []
    { world := plainWorld }).1.2

end Agreement

/-! ### What is printed -/

/-- The program does nothing but print these lines. -/
def Prints (m : Program Unit) (lines : List String) : Prop :=
  ∀ p, ∃ p', m p = (.ok (), p') ∧
    p'.out.toList = p.out.toList ++ terminated '\n' (lines.map String.toList)

theorem prints_line (line : String) : Prints (printOut (line ++ "\n")) [line] := by
  intro p
  refine ⟨_, rfl, ?_⟩
  simp [terminated]

theorem Prints.bind {m : Program Unit} {m' : Program Unit} {lines lines' : List String}
    (hm : Prints m lines) (hm' : Prints m' lines') :
    Prints (m >>= fun _ => m') (lines ++ lines') := by
  intro p
  obtain ⟨p', hrun, hout⟩ := hm p
  obtain ⟨p'', hrun', hout'⟩ := hm' p'
  refine ⟨p'', by rw [Effect.bind_apply_ok hrun, hrun'], ?_⟩
  rw [hout', hout, List.map_append, List.append_assoc, terminated_append]

theorem prints_ite (c : Prop) [Decidable c] {m m' : Program Unit} {lines lines' : List String}
    (hm : Prints m lines) (hm' : Prints m' lines') :
    Prints (if c then m else m') (if c then lines else lines') := by
  split
  · exact hm
  · exact hm'

/-- A line in front of the rest that is printed only in some cases. -/
theorem Prints.optional {c : Prop} [Decidable c] {rest : Program Unit} {lines : List String}
    (line : String) (hrest : Prints rest lines) :
    Prints (if c then printOut (line ++ "\n") >>= fun _ => rest else rest)
      ((if c then [line] else []) ++ lines) := by
  split
  · exact (prints_line line).bind hrest
  · exact hrest

/-- The line of a size. -/
def sizeLine (label : String) (size : UInt64) : String := label ++ toString size ++ " bytes"

/-- The lines of `info` about the checksums. -/
def CommandLine.checksumLines (metadata : PatchMetadata) : List String :=
  if metadata.hasChecksums then
    ["  Checksums: Available", "    Source: 0x" ++ hexText metadata.sourceChecksum,
      "    Target: 0x" ++ hexText metadata.targetChecksum]
  else ["  Checksums: Not available"]

/-- The lines of `info` behind the path. -/
def CommandLine.metadataLines (metadata : PatchMetadata) : List String :=
  ("  Format: " ++ formatToString metadata.format) ::
    ((if metadata.srcSize > 0 then [sizeLine "  Source Size: " metadata.srcSize] else []) ++
    ((if metadata.targetSize > 0 then [sizeLine "  Target Size: " metadata.targetSize] else []) ++
    checksumLines metadata))

/-- The lines of `patch_info` about the checksums. -/
def PatchInfo.checksumLines (metadata : PatchMetadata) : List String :=
  if metadata.hasChecksums then
    ["  Source Checksum: 0x" ++ paddedHexText metadata.sourceChecksum,
      "  Target Checksum: 0x" ++ paddedHexText metadata.targetChecksum]
  else ["  Checksums: Not available"]

/-- The lines of `patch_info` behind the first one. -/
def PatchInfo.metadataLines (metadata : PatchMetadata) : List String :=
  ("  Format: " ++ formatToString metadata.format) ::
    sizeLine "  Source Size: " metadata.srcSize :: sizeLine "  Target Size: " metadata.targetSize ::
    checksumLines metadata

theorem sizeLine_newline (label : String) (size : UInt64) :
    sizeLine label size ++ "\n" = label ++ toString size ++ " bytes\n" := by
  rw [sizeLine, String.append_assoc]
  rfl

theorem CommandLine.prints_printMetadata (patchPath : Path) (metadata : PatchMetadata) :
    Prints (CommandLine.printMetadata patchPath metadata)
      (["Patch Information:", "  File:   " ++ patchPath] ++ metadataLines metadata) := by
  have hchecksums : Prints (if metadata.hasChecksums then do
      printOut "  Checksums: Available\n"
      printOut ("    Source: 0x" ++ hexText metadata.sourceChecksum ++ "\n")
      printOut ("    Target: 0x" ++ hexText metadata.targetChecksum ++ "\n")
    else printOut "  Checksums: Not available\n") _ :=
    prints_ite _ ((prints_line "  Checksums: Available").bind ((prints_line _).bind (prints_line _)))
      (prints_line "  Checksums: Not available")
  -- the lines behind a line that may be left out are put together first
  have htarget := Prints.optional (c := metadata.targetSize > 0)
    (sizeLine "  Target Size: " metadata.targetSize) hchecksums
  have hsource := Prints.optional (c := metadata.srcSize > 0)
    (sizeLine "  Source Size: " metadata.srcSize) htarget
  rw [sizeLine_newline, sizeLine_newline] at hsource
  exact (prints_line "Patch Information:").bind ((prints_line _).bind ((prints_line _).bind hsource))

theorem PatchInfo.prints_printMetadata (metadata : PatchMetadata) :
    Prints (PatchInfo.printMetadata metadata) (["Patch Information:"] ++ metadataLines metadata) := by
  have hchecksums : Prints (if metadata.hasChecksums then do
      printOut ("  Source Checksum: 0x" ++ paddedHexText metadata.sourceChecksum ++ "\n")
      printOut ("  Target Checksum: 0x" ++ paddedHexText metadata.targetChecksum ++ "\n")
    else printOut "  Checksums: Not available\n") _ :=
    prints_ite _ ((prints_line _).bind (prints_line _)) (prints_line "  Checksums: Not available")
  have htarget := (prints_line (sizeLine "  Target Size: " metadata.targetSize)).bind hchecksums
  have hsource := (prints_line (sizeLine "  Source Size: " metadata.srcSize)).bind htarget
  rw [sizeLine_newline, sizeLine_newline] at hsource
  exact (prints_line "Patch Information:").bind ((prints_line _).bind hsource)

/-! ### Reading it back -/

theorem toString_injective : Function.Injective (toString : UInt64 → String) := by
  intro n n' h
  have htext : ∀ n : UInt64, (toString n).toList = padded 0 10 n.toNat :=
    fun n => Nat.toList_repr.trans (padded_zero 10 n.toNat).symm
  have hdigits := congrArg String.toList h
  rw [htext, htext] at hdigits
  exact UInt64.toNat_inj.mp (padded_injective (by decide) (by decide) 0 hdigits)

theorem CommandLine.hexText_injective : Function.Injective hexText := by
  intro n n' h
  have htext : ∀ n : UInt32, (hexText n).toList = padded 0 16 n.toNat :=
    fun n => String.toList_ofList.trans (padded_zero 16 n.toNat).symm
  have hdigits := congrArg String.toList h
  rw [htext, htext] at hdigits
  exact UInt32.toNat_inj.mp (padded_injective (by decide) (by decide) 0 hdigits)

theorem PatchInfo.paddedHexText_injective : Function.Injective paddedHexText := by
  intro n n' h
  have hdigits := congrArg String.toList h
  rw [paddedHexText, paddedHexText, String.toList_ofList, String.toList_ofList] at hdigits
  exact UInt32.toNat_inj.mp (padded_injective (by decide) (by decide) 8 hdigits)

theorem formatToString_injective : Function.Injective formatToString := by
  intro format format' h
  cases format <;> cases format' <;> first | rfl | exact absurd h (by decide)

/-- A line that may stand in front can be told from what stands behind it. -/
theorem optional_append_inj {α : Type} {c c' : Prop} [Decidable c] [Decidable c'] {line line' : α}
    {rest rest' : List α} (hline : line ∉ rest') (hline' : line' ∉ rest)
    (h : (if c then [line] else []) ++ rest = (if c' then [line'] else []) ++ rest') :
    (c ↔ c') ∧ (c → line = line') ∧ rest = rest' := by
  by_cases hc : c <;> by_cases hc' : c'
  · rw [if_pos hc, if_pos hc', List.singleton_append, List.singleton_append, List.cons.injEq] at h
    exact ⟨iff_of_true hc hc', fun _ => h.1, h.2⟩
  · rw [if_pos hc, if_neg hc', List.nil_append] at h
    exact absurd (h ▸ List.mem_cons_self) hline
  · rw [if_neg hc, if_pos hc', List.nil_append] at h
    exact absurd (h.symm ▸ List.mem_cons_self) hline'
  · rw [if_neg hc, if_neg hc', List.nil_append, List.nil_append] at h
    exact ⟨iff_of_false hc hc', fun hpos => absurd hpos hc, h⟩

theorem sizeLine_injective (label : String) : Function.Injective (sizeLine label) := by
  intro size size' h
  exact toString_injective (by simpa [sizeLine] using h)

/-- The line of a size is none of the lines that begin otherwise. -/
theorem sizeLine_notMem {label : String} {lines : List String}
    (h : ∀ line ∈ lines, ¬ label.toList <+: line.toList) (size : UInt64) :
    sizeLine label size ∉ lines := by
  intro hmem
  refine h _ hmem ?_
  rw [sizeLine, String.toList_append, String.toList_append, List.append_assoc]
  exact List.prefix_append _ _

/-- Metadata without checksums has zeros in their place. -/
def PatchMetadata.ChecksumsGiven (metadata : PatchMetadata) : Prop :=
  metadata.hasChecksums = false → metadata.sourceChecksum = 0 ∧ metadata.targetChecksum = 0

theorem checksumsGiven_of_getPatchInfo {env : Environment} {patchPath : Path} {world : World}
    {metadata : PatchMetadata} (h : (getPatchInfo env patchPath world).1 = .ok metadata) :
    metadata.ChecksumsGiven := by
  rw [getPatchInfo, Effect.bind_apply] at h
  rcases hload : loadPatch env patchPath world with ⟨patch | e | thrown, world'⟩
  · rw [hload] at h
    have hmetadata := Outcome.ofExcept_eq_ok_iff.mp h
    intro hnone
    cases patch with
    | ips patch => cases hmetadata; exact ⟨rfl, rfl⟩
    | ups patch => cases hmetadata; cases hnone
    | bps patch => cases hmetadata; cases hnone
  · rw [hload] at h; cases h
  · rw [hload] at h; cases h

section Injective

variable {metadata metadata' : PatchMetadata}

/-- What is reported of the checksums, if nothing else differs. -/
theorem PatchMetadata.ext_of_given (hgiven : metadata.ChecksumsGiven)
    (hgiven' : metadata'.ChecksumsGiven) (hformat : metadata.format = metadata'.format)
    (hsource : metadata.srcSize = metadata'.srcSize)
    (htarget : metadata.targetSize = metadata'.targetSize)
    (hhas : metadata.hasChecksums = metadata'.hasChecksums)
    (hchecksums : metadata.hasChecksums = true →
      metadata.sourceChecksum = metadata'.sourceChecksum ∧
        metadata.targetChecksum = metadata'.targetChecksum) : metadata = metadata' := by
  have hboth : metadata.sourceChecksum = metadata'.sourceChecksum ∧
      metadata.targetChecksum = metadata'.targetChecksum := by
    cases hnone : metadata.hasChecksums with
    | true => exact hchecksums hnone
    | false =>
      obtain ⟨hs, ht⟩ := hgiven hnone
      obtain ⟨hs', ht'⟩ := hgiven' (hhas ▸ hnone)
      exact ⟨hs.trans hs'.symm, ht.trans ht'.symm⟩
  obtain ⟨hs, ht⟩ := hboth
  cases metadata
  cases metadata'
  simp_all

/-- The checksums are there in both or in neither, and can be read back. -/
theorem checksums_of_lines {print : UInt32 → String} (hprint : Function.Injective print)
    (front : List String) {source target absent : String}
    (h : (if metadata.hasChecksums then
        front ++ [source ++ print metadata.sourceChecksum, target ++ print metadata.targetChecksum]
      else [absent])
      = if metadata'.hasChecksums then
        front ++ [source ++ print metadata'.sourceChecksum, target ++ print metadata'.targetChecksum]
      else [absent]) :
    metadata.hasChecksums = metadata'.hasChecksums ∧ (metadata.hasChecksums = true →
      metadata.sourceChecksum = metadata'.sourceChecksum ∧
        metadata.targetChecksum = metadata'.targetChecksum) := by
  have hlength := congrArg List.length h
  cases hhas : metadata.hasChecksums <;> cases hhas' : metadata'.hasChecksums <;>
    rw [hhas, hhas'] at h hlength
  · exact ⟨rfl, fun h => by cases h⟩
  · simp at hlength
  · simp at hlength
  · refine ⟨rfl, fun _ => ?_⟩
    have hnumbers : print metadata.sourceChecksum = print metadata'.sourceChecksum ∧
        print metadata.targetChecksum = print metadata'.targetChecksum := by simpa using h
    exact ⟨hprint hnumbers.1, hprint hnumbers.2⟩

namespace CommandLine

theorem source_notPrefix :
    ∀ line ∈ checksumLines metadata, ¬ "  Source Size: ".toList <+: line.toList := by
  rw [checksumLines]
  split <;> simp

theorem target_notPrefix :
    ∀ line ∈ checksumLines metadata, ¬ "  Target Size: ".toList <+: line.toList := by
  rw [checksumLines]
  split <;> simp

/-- **The lines of `info` can be read back**: each size that is not there is zero. -/
theorem eq_of_metadataLines_eq (hgiven : metadata.ChecksumsGiven) (hgiven' : metadata'.ChecksumsGiven)
    (h : metadataLines metadata = metadataLines metadata') : metadata = metadata' := by
  -- no later line begins like the source size, so that it cannot be taken for one
  have htargetNot : ∀ metadata metadata' : PatchMetadata,
      sizeLine "  Source Size: " metadata.srcSize ∉
        (if metadata'.targetSize > 0 then [sizeLine "  Target Size: " metadata'.targetSize] else [])
          ++ checksumLines metadata' := by
    intro metadata metadata'
    refine sizeLine_notMem (List.forall_mem_append.mpr ⟨?_, source_notPrefix⟩) _
    split <;> simp [sizeLine]
  rw [metadataLines, metadataLines, List.cons.injEq] at h
  obtain ⟨hformat, hlines⟩ := h
  obtain ⟨hsourceShown, hsource, hlines⟩ := optional_append_inj (htargetNot metadata metadata')
    (htargetNot metadata' metadata) hlines
  obtain ⟨htargetShown, htarget, hlines⟩ := optional_append_inj
    (sizeLine_notMem target_notPrefix _) (sizeLine_notMem target_notPrefix _) hlines
  obtain ⟨hhas, hchecksums⟩ := checksums_of_lines hexText_injective
    ["  Checksums: Available"] hlines
  -- a size that is not shown is zero
  have hsize : ∀ {size size' : UInt64}, (size > 0 ↔ size' > 0) → (size > 0 → size = size') →
      size = size' := by
    intro size size' hshown heq
    by_cases hpos : size > 0
    · exact heq hpos
    · have hpos' : ¬ size' > 0 := fun h => hpos (hshown.mpr h)
      rw [gt_iff_lt, UInt64.lt_iff_toNat_lt, UInt64.toNat_zero] at hpos hpos'
      rw [← UInt64.toNat_inj]
      omega
  refine PatchMetadata.ext_of_given hgiven hgiven' (formatToString_injective (by simpa using hformat))
    (hsize hsourceShown fun hpos => sizeLine_injective _ (hsource hpos))
    (hsize htargetShown fun hpos => sizeLine_injective _ (htarget hpos)) hhas hchecksums

end CommandLine

namespace PatchInfo

/-- **The lines of `patch_info` can be read back.** -/
theorem eq_of_metadataLines_eq (hgiven : metadata.ChecksumsGiven) (hgiven' : metadata'.ChecksumsGiven)
    (h : metadataLines metadata = metadataLines metadata') : metadata = metadata' := by
  rw [metadataLines, metadataLines, List.cons.injEq, List.cons.injEq, List.cons.injEq] at h
  obtain ⟨hformat, hsource, htarget, hlines⟩ := h
  obtain ⟨hhas, hchecksums⟩ := checksums_of_lines paddedHexText_injective [] hlines
  exact PatchMetadata.ext_of_given hgiven hgiven' (formatToString_injective (by simpa using hformat))
    (sizeLine_injective _ hsource) (sizeLine_injective _ htarget) hhas hchecksums

end PatchInfo

end Injective

/-! ### No line break in a line -/

theorem newline_notMem_append {a b : String} (ha : '\n' ∉ a.toList) (hb : '\n' ∉ b.toList) :
    '\n' ∉ (a ++ b).toList := by
  rw [String.toList_append, List.mem_append]
  exact not_or.mpr ⟨ha, hb⟩

theorem newline_notMem_toString (n : UInt64) : '\n' ∉ (toString n).toList := by
  have h := newline_notMem_padded (b := 10) (by decide) (by decide) 0 n.toNat
  rwa [padded_zero, ← Nat.toList_repr] at h

theorem newline_notMem_sizeLine {label : String} (h : '\n' ∉ label.toList) (size : UInt64) :
    '\n' ∉ (sizeLine label size).toList :=
  newline_notMem_append (newline_notMem_append h (newline_notMem_toString size)) (by decide)

theorem CommandLine.newline_notMem_hexText (n : UInt32) : '\n' ∉ (hexText n).toList := by
  have h := newline_notMem_padded (b := 16) (by decide) (by decide) 0 n.toNat
  rwa [hexText, String.toList_ofList, ← padded_zero]

theorem PatchInfo.newline_notMem_paddedHexText (n : UInt32) : '\n' ∉ (paddedHexText n).toList := by
  rw [paddedHexText, String.toList_ofList]
  exact newline_notMem_padded (by decide) (by decide) 8 n.toNat

theorem newline_notMem_format (format : Format) :
    '\n' ∉ ("  Format: " ++ formatToString format).toList := by
  cases format <;> decide

theorem CommandLine.newline_notMem_metadataLines (metadata : PatchMetadata) :
    ∀ line ∈ metadataLines metadata, '\n' ∉ line.toList := by
  have hchecksums : ∀ line ∈ checksumLines metadata, '\n' ∉ line.toList := by
    rw [checksumLines]
    split
    · simp only [List.forall_mem_cons]
      exact ⟨by decide, newline_notMem_append (by decide) (newline_notMem_hexText _),
        newline_notMem_append (by decide) (newline_notMem_hexText _), by simp⟩
    · simp only [List.forall_mem_singleton]
      decide
  have hoptional : ∀ (c : Prop) [Decidable c] (label : String) (size : UInt64),
      '\n' ∉ label.toList →
      ∀ line ∈ (if c then [sizeLine label size] else []), '\n' ∉ line.toList := by
    intro c _ label size hlabel
    split
    · exact List.forall_mem_singleton.mpr (newline_notMem_sizeLine hlabel size)
    · simp
  rw [metadataLines, List.forall_mem_cons, List.forall_mem_append, List.forall_mem_append]
  exact ⟨newline_notMem_format _, hoptional _ _ _ (by decide), hoptional _ _ _ (by decide), hchecksums⟩

theorem PatchInfo.newline_notMem_metadataLines (metadata : PatchMetadata) :
    ∀ line ∈ metadataLines metadata, '\n' ∉ line.toList := by
  have hchecksums : ∀ line ∈ checksumLines metadata, '\n' ∉ line.toList := by
    rw [checksumLines]
    split
    · simp only [List.forall_mem_cons]
      exact ⟨newline_notMem_append (by decide) (newline_notMem_paddedHexText _),
        newline_notMem_append (by decide) (newline_notMem_paddedHexText _), by simp⟩
    · simp only [List.forall_mem_singleton]
      decide
  rw [metadataLines, List.forall_mem_cons, List.forall_mem_cons, List.forall_mem_cons]
  exact ⟨newline_notMem_format _, newline_notMem_sizeLine (by decide) _,
    newline_notMem_sizeLine (by decide) _, hchecksums⟩

/-! ### What the programs say -/

/-- The output of a program that prints what a call comes back with. -/
theorem out_of_call {α : Type} {m : FileM α} {f : Result α → Program Nat} {print : α → Program Unit}
    {lines : α → List String} (hf : ∀ a, f (.ok a) = print a >>= fun _ => pure 0)
    (hprint : ∀ a, Prints (print a) (lines a)) {world : World} {a : α} (hm : (m world).1 = .ok a) :
    ((call m >>= f) { world }).2.out.toList = terminated '\n' ((lines a).map String.toList) := by
  obtain ⟨p, hrun, hout⟩ := hprint a { world := (m world).2 }
  -- the call is followed by the printing, and nothing is printed before it
  have hcall : m world = (.ok a, (m world).2) := by rw [← hm]
  rw [call_bind, hcall]
  dsimp only
  rw [hf, Effect.bind_apply_ok hrun]
  exact hout

/-- Lines after the same first lines can be told apart by the text. -/
theorem eq_of_printed_eq {front lines lines' : List String}
    (hlines : ∀ line ∈ lines, '\n' ∉ line.toList) (hlines' : ∀ line ∈ lines', '\n' ∉ line.toList)
    (h : terminated '\n' ((front ++ lines).map String.toList)
      = terminated '\n' ((front ++ lines').map String.toList)) : lines = lines' := by
  rw [List.map_append, List.map_append, terminated_append, terminated_append] at h
  have hrest := eq_of_terminated_eq (List.forall_mem_map.mpr hlines) (List.forall_mem_map.mpr hlines')
    (List.append_cancel_left h)
  exact List.map_injective_iff.mpr (fun _ _ => String.toList_injective) hrest

/-- **What is printed of a patch is all it says.** For two patch files at one path, read in two file
systems, under any faults: `info` prints the same text for both exactly if their metadata are the same,
and so does `patch_info`. -/
theorem printed_metadata (version : CommandLine.Version) (programName toolName : String)
    {env env' : Environment} {patchPath : Path} {world world' : World}
    {metadata metadata' : PatchMetadata} (h : (getPatchInfo env patchPath world).1 = .ok metadata)
    (h' : (getPatchInfo env' patchPath world').1 = .ok metadata') (more : List String) :
    ((CommandLine.main version env toolName ("info" :: patchPath :: more) { world }).2.out
        = (CommandLine.main version env' toolName ("info" :: patchPath :: more)
            { world := world' }).2.out ↔ metadata = metadata') ∧
      ((PatchInfo.main env programName [patchPath] { world }).2.out
        = (PatchInfo.main env' programName [patchPath] { world := world' }).2.out ↔
          metadata = metadata') := by
  have hgiven := checksumsGiven_of_getPatchInfo h
  have hgiven' := checksumsGiven_of_getPatchInfo h'
  -- `info` is one of the commands of the tool
  have hinfo : ∀ env, CommandLine.main version env toolName ("info" :: patchPath :: more)
      = CommandLine.cmdInfo env (patchPath :: more) := by
    intro env
    rw [CommandLine.main, if_neg (by decide), if_neg (by decide), if_neg (by decide), if_pos rfl]
  have htool : ∀ {env world metadata}, (getPatchInfo env patchPath world).1 = .ok metadata →
      (CommandLine.main version env toolName ("info" :: patchPath :: more) { world }).2.out.toList
        = terminated '\n' ((["Patch Information:", "  File:   " ++ patchPath]
          ++ CommandLine.metadataLines metadata).map String.toList) := by
    intro env world metadata h
    rw [hinfo]
    exact out_of_call (fun _ => rfl) (CommandLine.prints_printMetadata patchPath) h
  have hexample : ∀ {env world metadata}, (getPatchInfo env patchPath world).1 = .ok metadata →
      (PatchInfo.main env programName [patchPath] { world }).2.out.toList
        = terminated '\n' ((["Patch Information:"]
          ++ PatchInfo.metadataLines metadata).map String.toList) :=
    fun h => out_of_call (fun _ => rfl) PatchInfo.prints_printMetadata h
  constructor
  · rw [← String.toList_inj, htool h, htool h']
    refine ⟨fun htext => ?_, fun heq => by rw [heq]⟩
    exact CommandLine.eq_of_metadataLines_eq hgiven hgiven' (eq_of_printed_eq
      (CommandLine.newline_notMem_metadataLines metadata)
      (CommandLine.newline_notMem_metadataLines metadata') htext)
  · rw [← String.toList_inj, hexample h, hexample h']
    refine ⟨fun htext => ?_, fun heq => by rw [heq]⟩
    exact PatchInfo.eq_of_metadataLines_eq hgiven hgiven' (eq_of_printed_eq
      (PatchInfo.newline_notMem_metadataLines metadata)
      (PatchInfo.newline_notMem_metadataLines metadata') htext)

/-- A patch without records, and one that writes a byte. -/
theorem printed_metadata_oneRecord :
    let world := plainWorld.put "patch" (ipsMagic ++ [0, 0, 0, 0, 1, 9] ++ ipsEof)
    (CommandLine.main ⟨1, 0, 0⟩ {} "iubpatch" ["info", "patch"] { world := plainWorld }).2.out
      ≠ (CommandLine.main ⟨1, 0, 0⟩ {} "iubpatch" ["info", "patch"] { world }).2.out := by
  intro world
  have hplain : (getPatchInfo {} "patch" plainWorld).1 = .ok { format := .ips } := by decide +kernel
  have hrecord : (getPatchInfo {} "patch" world).1 = .ok { format := .ips, targetSize := 1 } := by
    decide +kernel
  intro htext
  have heq := (printed_metadata ⟨1, 0, 0⟩ "patch_info" "iubpatch" hplain hrecord []).1.mp htext
  exact absurd heq (by decide)

end IUBPatch
