import IUBPatch.Formats.BPSReach
import IUBPatch.Lib.Rearrangement

/-! # BPS patches as rearrangements

No command looks at a byte of the source: what it takes depends on lengths and offsets only. So without
verification a patch does one thing to all sources of a size: each byte it makes is a fixed one or the
one at a fixed place, or it fails in one way. Then two patches without `TargetRead` can be written as
one. -/

namespace IUBPatch.BPS

open Origin

/-! ### Traces -/

/-- The locals of the command loop, with where each byte of the output comes from. -/
structure Trace where
  origins : List (Origin Byte)
  sourceRelOffset : UInt64
  targetRelOffset : UInt64
  patchDataOffset : UInt64

/-- The locals for one source. -/
def Trace.state (trace : Trace) (S : Bytes) : ReplayState where
  output := rearrange 0 trace.origins S
  sourceRelOffset := trace.sourceRelOffset
  targetRelOffset := trace.targetRelOffset
  patchDataOffset := trace.patchDataOffset

section Traces

variable {n : Nat} {Allowed : Origin Byte → Prop}

/-- A slice of a source is made of its places. -/
theorem rearrange_slice_places {S : Bytes} (h : S.length = n) (start length : Nat) :
    rearrange 0 (((places n).drop start).take length) S = slice S start length := by
  rw [rearrange, List.map_take, List.map_drop, ← rearrange, rearrange_places 0 h, slice]

theorem mem_places_of_mem_slice {start length : Nat} {origin : Origin Byte}
    (h : origin ∈ ((places n).drop start).take length) : origin ∈ (places n : List (Origin Byte)) :=
  List.mem_of_mem_drop (List.mem_of_mem_take h)

/-- **The byte loop of `TargetCopy`** copies origins. -/
theorem exists_origins_targetCopyLoop (offset i : UInt64) (remaining : Nat)
    {origins : List (Origin Byte)} (hallowed : ∀ origin ∈ origins, Allowed origin) :
    ∃ answer : Result (List (Origin Byte)),
      (∀ made, answer = .ok made → ∀ origin ∈ made, Allowed origin) ∧
      ∀ S : Bytes, targetCopyLoop offset remaining i (rearrange 0 origins S)
        = answer.map fun made => rearrange 0 made S := by
  induction remaining generalizing i origins with
  | zero => exact ⟨.ok origins, fun made hmade => by cases hmade; exact hallowed, fun S => rfl⟩
  | succ remaining ih =>
    by_cases hin : (offset + i).toNat < origins.length
    · -- the byte has the origin of the one it is copied from
      have hnext : ∀ origin ∈ origins ++ [origins[(offset + i).toNat]], Allowed origin := by
        rw [List.forall_mem_append, List.forall_mem_singleton]
        exact ⟨hallowed, hallowed _ (List.getElem_mem hin)⟩
      obtain ⟨answer, hanswer, hloop⟩ := ih (i + 1) hnext
      refine ⟨answer, hanswer, fun S => ?_⟩
      have hbyte : (rearrange 0 origins S)[(offset + i).toNat]?
          = some (value 0 S origins[(offset + i).toNat]) := by
        rw [rearrange, List.getElem?_map, List.getElem?_eq_getElem hin]
        rfl
      rw [targetCopyLoop, hbyte, ← hloop S, rearrange_append]
      rfl
    · refine ⟨.error (commandError "TargetCopy exceeds output size"),
        fun made hmade => (by cases hmade), fun S => ?_⟩
      have hnone : (rearrange 0 origins S)[(offset + i).toNat]? = none := by
        rw [rearrange, List.getElem?_map, List.getElem?_eq_none (Nat.not_lt.mp hin)]
        rfl
      rw [targetCopyLoop, hnone]
      rfl

/-- What a command does to the sources of `n` bytes has one trace: an answer that stands for it on all of
them, with allowed origins. -/
def Traced (n : Nat) (Allowed : Origin Byte → Prop) (patchData : Bytes) (trace : Trace) (cmd : Command) :
    Prop :=
  ∃ answer : Result Trace,
    (∀ next, answer = .ok next → ∀ origin ∈ next.origins, Allowed origin) ∧
    ∀ S : Bytes, S.length = n →
      execCommand patchData S (trace.state S) cmd = answer.map fun next => next.state S

section Commands

variable {patchData : Bytes} {cmd : Command} {trace : Trace}

/-- A command that fails in one way. -/
theorem Traced.of_error (e : ErrorInfo)
    (h : ∀ S : Bytes, S.length = n → execCommand patchData S (trace.state S) cmd = .error e) :
    Traced n Allowed patchData trace cmd :=
  ⟨.error e, fun _ hnext => (by cases hnext), h⟩

/-- A command that leaves the locals of one trace. -/
theorem Traced.of_ok (next : Trace) (hnext : ∀ origin ∈ next.origins, Allowed origin)
    (h : ∀ S : Bytes, S.length = n →
      execCommand patchData S (trace.state S) cmd = .ok (next.state S)) :
    Traced n Allowed patchData trace cmd :=
  ⟨.ok next, fun _ hsame => (by cases hsame; exact hnext), h⟩

/-- The size of a source is the same for all of them. -/
theorem size_of_length {S : Bytes} (hS : S.length = n) : size S = UInt64.ofNat n := by
  rw [size, hS]

variable (hallowed : ∀ origin ∈ trace.origins, Allowed origin)

include hallowed

/-- `SourceRead`: the check compares a cursor with a size, and both are the same for all sources. -/
theorem traced_sourceRead (haction : cmd.action = .sourceRead)
    (hplaces : ∀ origin ∈ places n, Allowed origin) : Traced n Allowed patchData trace cmd := by
  by_cases hover : trace.sourceRelOffset + cmd.length > UInt64.ofNat n
  · refine .of_error (commandError "SourceRead exceeds source size") fun S hS => ?_
    rw [execCommand, haction, size_of_length hS]
    exact if_pos hover
  · refine .of_ok { trace with
        origins := trace.origins
          ++ ((places n).drop trace.sourceRelOffset.toNat).take cmd.length.toNat
        sourceRelOffset := trace.sourceRelOffset + cmd.length } ?_ fun S hS => ?_
    · exact List.forall_mem_append.mpr
        ⟨hallowed, fun origin h => hplaces origin (mem_places_of_mem_slice h)⟩
    · rw [execCommand, haction, size_of_length hS]
      refine (if_neg hover).trans (congrArg Except.ok ?_)
      dsimp only [Trace.state]
      rw [rearrange_append, rearrange_slice_places hS]

/-- `TargetRead` takes bytes of the patch. -/
theorem traced_targetRead (haction : cmd.action = .targetRead)
    (hliterals : ∀ b, Allowed (literal b)) : Traced n Allowed patchData trace cmd := by
  by_cases hover : trace.patchDataOffset + cmd.length > size patchData - 12
  · refine .of_error (commandError "TargetRead exceeds patch data") fun S hS => ?_
    rw [execCommand, haction]
    exact if_pos hover
  · refine .of_ok { trace with
        origins := trace.origins
          ++ (slice patchData trace.patchDataOffset.toNat cmd.length.toNat).map literal
        patchDataOffset := trace.patchDataOffset + cmd.length } ?_ fun S hS => ?_
    · exact List.forall_mem_append.mpr ⟨hallowed, List.forall_mem_map.mpr fun b _ => hliterals b⟩
    · rw [execCommand, haction]
      refine (if_neg hover).trans (congrArg Except.ok ?_)
      dsimp only [Trace.state]
      rw [rearrange_append, rearrange_literals]

/-- `SourceCopy`: the offset comes from a cursor and the command alone. -/
theorem traced_sourceCopy (haction : cmd.action = .sourceCopy)
    (hplaces : ∀ origin ∈ places n, Allowed origin) : Traced n Allowed patchData trace cmd := by
  by_cases hout : copyOffset trace.sourceRelOffset cmd.offsetDelta < 0 ∨
      (copyOffset trace.sourceRelOffset cmd.offsetDelta).toUInt64 + cmd.length > UInt64.ofNat n
  · refine .of_error (commandError "SourceCopy offset out of bounds") fun S hS => ?_
    rw [execCommand, haction, size_of_length hS]
    exact if_pos hout
  · refine .of_ok { trace with
        origins := trace.origins ++ ((places n).drop (copyOffset trace.sourceRelOffset
          cmd.offsetDelta).toUInt64.toNat).take cmd.length.toNat
        sourceRelOffset := (copyOffset trace.sourceRelOffset cmd.offsetDelta).toUInt64
          + cmd.length } ?_ fun S hS => ?_
    · exact List.forall_mem_append.mpr
        ⟨hallowed, fun origin h => hplaces origin (mem_places_of_mem_slice h)⟩
    · rw [execCommand, haction, size_of_length hS]
      refine (if_neg hout).trans (congrArg Except.ok ?_)
      dsimp only [Trace.state]
      rw [rearrange_append, rearrange_slice_places hS]

/-- `TargetCopy` copies origins. -/
theorem traced_targetCopy (haction : cmd.action = .targetCopy) :
    Traced n Allowed patchData trace cmd := by
  -- the output is as long as its origins, whatever the source is
  have hwritten : ∀ S : Bytes, size (trace.state S).output = UInt64.ofNat trace.origins.length :=
    fun S => congrArg UInt64.ofNat (length_rearrange 0 trace.origins S)
  by_cases hout : copyOffset trace.targetRelOffset cmd.offsetDelta < 0 ∨
      (copyOffset trace.targetRelOffset cmd.offsetDelta).toUInt64
        ≥ UInt64.ofNat trace.origins.length
  · refine .of_error (commandError "TargetCopy offset out of bounds") fun S hS => ?_
    rw [execCommand, haction, hwritten S]
    exact if_pos hout
  · obtain ⟨answer, hanswer, hloop⟩ := exists_origins_targetCopyLoop
      (copyOffset trace.targetRelOffset cmd.offsetDelta).toUInt64 0 cmd.length.toNat hallowed
    refine ⟨answer.map fun made => { trace with
        origins := made
        targetRelOffset := (copyOffset trace.targetRelOffset cmd.offsetDelta).toUInt64
          + cmd.length }, ?_, fun S hS => ?_⟩
    · intro next hnext
      cases answer with
      | error e => cases hnext
      | ok made => cases hnext; exact hanswer made rfl
    · rw [execCommand, haction, hwritten S]
      refine (if_neg hout).trans ?_
      dsimp only [Trace.state]
      rw [hloop S]
      cases answer <;> rfl

/-- **One command** does one thing to all sources of a size. It may use any place of the source, and a
`TargetRead` any byte of the patch. -/
theorem exists_trace_execCommand (hplaces : ∀ origin ∈ places n, Allowed origin)
    (hliterals : cmd.action = .targetRead → ∀ b, Allowed (literal b)) :
    Traced n Allowed patchData trace cmd := by
  cases haction : cmd.action with
  | sourceRead => exact traced_sourceRead hallowed haction hplaces
  | targetRead => exact traced_targetRead hallowed haction (hliterals haction)
  | sourceCopy => exact traced_sourceCopy hallowed haction hplaces
  | targetCopy => exact traced_targetCopy hallowed haction

end Commands

/-- **A run of commands** does one thing to all sources of a size. -/
theorem exists_trace_replay (patchData : Bytes) (commands : List Command) {trace : Trace}
    (hplaces : ∀ origin ∈ places n, Allowed origin)
    (hliterals : (∃ cmd ∈ commands, cmd.action = .targetRead) → ∀ b, Allowed (literal b))
    (hallowed : ∀ origin ∈ trace.origins, Allowed origin) :
    ∃ answer : Result Trace,
      (∀ next, answer = .ok next → ∀ origin ∈ next.origins, Allowed origin) ∧
      ∀ S : Bytes, S.length = n →
        commands.foldlM (execCommand patchData S) (trace.state S)
          = answer.map fun next => next.state S := by
  induction commands generalizing trace with
  | nil => exact ⟨.ok trace, fun next hnext => (by cases hnext; exact hallowed), fun S hS => rfl⟩
  | cons cmd commands ih =>
    obtain ⟨first, hfirst, hexec⟩ : Traced n Allowed patchData trace cmd :=
      exists_trace_execCommand hallowed hplaces fun haction =>
        hliterals ⟨cmd, List.mem_cons_self, haction⟩
    cases first with
    | error e =>
      refine ⟨.error e, fun next hnext => (by cases hnext), fun S hS => ?_⟩
      rw [List.foldlM_cons, hexec S hS]
      rfl
    | ok next =>
      obtain ⟨answer, hanswer, hrun⟩ := ih
        (fun ⟨c, hc, haction⟩ => hliterals ⟨c, List.mem_cons_of_mem cmd hc, haction⟩)
        (hfirst next rfl)
      refine ⟨answer, hanswer, fun S hS => ?_⟩
      rw [List.foldlM_cons, hexec S hS, ← hrun S hS]
      rfl

end Traces

/-! ### A whole patch -/

section Whole

variable {n : Nat} {Allowed : Origin Byte → Prop}

/-- **The replay** of a patch does one thing to all sources of a size, with all its ways out. -/
theorem exists_outcome_replayTarget (patch : BPSPatch) (hplaces : ∀ origin ∈ places n, Allowed origin)
    (hliterals : (∃ cmd ∈ patch.commands, cmd.action = .targetRead) → ∀ b, Allowed (literal b)) :
    ∃ outcome : Call (List (Origin Byte)),
      (∀ origins, outcome = .ok origins → ∀ origin ∈ origins, Allowed origin) ∧
      ∀ S : Bytes, S.length = n →
        patch.replayTarget S = outcome >>= fun origins => .ok (rearrange 0 origins S) := by
  by_cases hreserve : patch.targetSize.toNat ≤ maxSize
  swap
  · refine ⟨.throws .lengthError, fun origins horigins => (by cases horigins), fun S _ => ?_⟩
    rw [BPSPatch.replayTarget, reserve, if_neg hreserve]
    rfl
  have hstart : ∀ origin ∈ (Trace.mk [] 0 0 (UInt64.ofNat patch.dataOffset)).origins,
      Allowed origin := fun origin horigin => absurd horigin List.not_mem_nil
  obtain ⟨answer, hanswer, hrun⟩ :=
    exists_trace_replay patch.patchData patch.commands hplaces hliterals hstart
  have hreplay : ∀ S : Bytes, S.length = n →
      replay patch.patchData S patch.dataOffset patch.commands
        = answer.map fun trace => trace.state S := hrun
  cases answer with
  | error e =>
    refine ⟨.error e, fun origins horigins => (by cases horigins), fun S hS => ?_⟩
    rw [BPSPatch.replayTarget, reserve, if_pos hreserve, hreplay S hS]
    rfl
  | ok trace =>
    have hwritten : ∀ S : Bytes, size (trace.state S).output = UInt64.ofNat trace.origins.length :=
      fun S => congrArg UInt64.ofNat (length_rearrange 0 trace.origins S)
    have hmade : ∀ S : Bytes, S.length = n → patch.replayTarget S
        = if UInt64.ofNat trace.origins.length ≠ patch.targetSize then
            .error (patch.outputSizeError (trace.state S).output)
          else .ok (trace.state S).output := by
      intro S hS
      rw [BPSPatch.replayTarget, reserve, if_pos hreserve, hreplay S hS, ← hwritten S]
      rfl
    by_cases hsize : UInt64.ofNat trace.origins.length = patch.targetSize
    · exact ⟨.ok trace.origins, fun origins horigins => (by cases horigins; exact hanswer trace rfl),
        fun S hS => (hmade S hS).trans (if_neg (not_not.mpr hsize))⟩
    · -- the text of this error has the two sizes in it, and no byte
      refine ⟨.error (patch.outputSizeError (List.replicate trace.origins.length 0)),
        fun origins horigins => (by cases horigins), fun S hS => ?_⟩
      have hsame : patch.outputSizeError (trace.state S).output
          = patch.outputSizeError (List.replicate trace.origins.length 0) := by
        rw [BPSPatch.outputSizeError, BPSPatch.outputSizeError, hwritten S, size,
          List.length_replicate]
      rw [hmade S hS, if_pos hsize, hsame]
      rfl

/-- Without verification `apply` is its size check and the replay. -/
theorem apply_unverified {patch : BPSPatch} {S : Bytes} {options : PatchOptions}
    (hoff : options.verifyChecksums = false) :
    patch.apply S options = if size S ≠ patch.srcSize then .error (patch.sourceSizeError S)
      else patch.replayTarget S := by
  have hoff : ¬ options.verifyChecksums = true := by rw [hoff]; exact Bool.false_ne_true
  by_cases hsize : size S = patch.srcSize
  -- only the size is checked, and at the end no checksum
  · have hpasses : ¬ patch.RejectsSource S options := by
      rintro (hne | ⟨hverify, -⟩)
      · exact hne hsize
      · exact hoff hverify
    have hlast : ∀ target : Bytes, (if options.verifyChecksums ∧ calcCrc32 target ≠ patch.targetCrc
        then .error (patch.targetCrcError target) else .ok target : Call Bytes) = .ok target :=
      fun target => if_neg fun h => hoff h.1
    rw [BPSPatch.apply_of_not_rejects hpasses, if_neg (not_not.mpr hsize)]
    simp only [hlast]
    cases patch.replayTarget S <;> rfl
  · rw [BPSPatch.apply, if_pos hsize, if_pos hsize]

/-- Without verification `apply` does one thing to all sources of a size. -/
theorem exists_outcome_apply (patch : BPSPatch) (hplaces : ∀ origin ∈ places n, Allowed origin)
    (hliterals : (∃ cmd ∈ patch.commands, cmd.action = .targetRead) → ∀ b, Allowed (literal b)) :
    ∃ outcome : Call (List (Origin Byte)),
      (∀ origins, outcome = .ok origins → ∀ origin ∈ origins, Allowed origin) ∧
      ∀ (S : Bytes) (options : PatchOptions), S.length = n → options.verifyChecksums = false →
        patch.apply S options = outcome >>= fun origins => .ok (rearrange 0 origins S) := by
  have hsize : ∀ S : Bytes, S.length = n → size S = UInt64.ofNat n := fun S hS => by rw [size, hS]
  by_cases hsrc : UInt64.ofNat n = patch.srcSize
  · obtain ⟨outcome, hallowed, hreplay⟩ := exists_outcome_replayTarget patch hplaces hliterals
    refine ⟨outcome, hallowed, fun S options hS hoff => ?_⟩
    rw [apply_unverified hoff, hsize S hS, if_neg (not_not.mpr hsrc), hreplay S hS]
  · refine ⟨.error (patch.sourceSizeError (List.replicate n 0)),
      fun origins horigins => (by cases horigins), fun S options hS hoff => ?_⟩
    have hsame : patch.sourceSizeError S = patch.sourceSizeError (List.replicate n 0) := by
      rw [BPSPatch.sourceSizeError, BPSPatch.sourceSizeError, hsize S hS, size,
        List.length_replicate]
    rw [apply_unverified hoff, hsize S hS, if_pos hsrc, hsame]
    rfl

end Whole

/-- What an `apply` that verifies returns, one that does not returns as well. -/
theorem apply_unverified_of_apply {patch : BPSPatch} {S T : Bytes} {options : PatchOptions}
    (h : patch.apply S options = .ok T) :
    patch.apply S { options with verifyChecksums := false } = .ok T := by
  obtain ⟨haccepts, hreplay, -⟩ := (patch.apply_eq_ok_iff S T options).mp h
  rw [apply_unverified rfl, if_neg fun hne => haccepts (.inl hne), hreplay]

/-- **A patch is a rearrangement.** On the sources of one size a BPS patch has one outcome, and one
only: a rearrangement that looks inside the source, an error, or an exception. Every `apply` without
verification has it: it rearranges, or comes back with that very error or exception, whatever bytes are
in the source. And whatever an `apply` that verifies returns is what the rearrangement makes. -/
theorem apply_rearranges (patch : BPSPatch) (n : Nat) :
    ∃! outcome : Call (List (Origin Byte)),
      (∀ origins, outcome = .ok origins → ∀ origin ∈ origins, origin.Inside n) ∧
      ∀ (S : Bytes) (options : PatchOptions), S.length = n →
        (options.verifyChecksums = false →
          patch.apply S options = outcome >>= fun origins => .ok (rearrange 0 origins S)) ∧
        ∀ T, patch.apply S options = .ok T →
          ∃ origins, outcome = .ok origins ∧ T = rearrange 0 origins S := by
  have hplaces : ∀ origin ∈ (places n : List (Origin Byte)), origin.Inside n :=
    fun origin horigin => inside_of_mem_places horigin
  obtain ⟨outcome, hinside, happly⟩ := exists_outcome_apply patch hplaces fun _ b => trivial
  refine ⟨outcome, ⟨hinside, fun S options hS => ⟨happly S options hS, fun T hT => ?_⟩⟩, ?_⟩
  · have hunverified := apply_unverified_of_apply hT
    rw [happly S _ hS rfl] at hunverified
    obtain ⟨origins, horigins, hmade⟩ := Outcome.bind_eq_ok_iff.mp hunverified
    cases hmade
    exact ⟨origins, horigins, rfl⟩
  · -- two outcomes that do the same to all sources of the size are the same
    rintro other ⟨hotherInside, hother⟩
    have hsame : ∀ S : Bytes, S.length = n →
        (other >>= fun origins => .ok (rearrange 0 origins S) : Call Bytes)
          = outcome >>= fun origins => .ok (rearrange 0 origins S) := by
      intro S hS
      have hunverified : ({ verifyChecksums := false } : PatchOptions).verifyChecksums = false := rfl
      rw [← happly S _ hS hunverified, ← (hother S _ hS).1 hunverified]
    -- one source tells apart the ways out, and the other sources the rearrangements
    have hzeros := hsame (List.replicate n 0) List.length_replicate
    cases other with
    | error e => cases outcome <;> cases hzeros; rfl
    | throws thrown => cases outcome <;> cases hzeros; rfl
    | ok later =>
      cases outcome with
      | error e => cases hzeros
      | throws thrown => cases hzeros
      | ok origins =>
        have : Nontrivial Byte := ⟨0, 1, by decide⟩
        exact congrArg Outcome.ok (eq_of_rearrange_eq 0 (hotherInside later rfl)
          (hinside origins rfl) fun S hS => Outcome.ok.inj (hsame S hS))

/-! ### Two patches as one -/

/-- Without `TargetRead` a patch that makes a target takes every byte of it from a place of the source,
and the same places of every source of that size. -/
theorem exists_starts_of_apply {patch : BPSPatch} {S T : Bytes} {options : PatchOptions}
    (hkinds : ∀ cmd ∈ patch.commands, cmd.action ≠ .targetRead)
    (h : patch.apply S options = .ok T) :
    ∃ starts : List Nat, (∀ start ∈ starts, start < S.length) ∧
      T = rearrange 0 (starts.map place) S ∧
      ∀ (S' : Bytes) (options : PatchOptions), S'.length = S.length →
        options.verifyChecksums = false →
        patch.apply S' options = .ok (rearrange 0 (starts.map place) S') := by
  have hplaces : ∀ origin ∈ (places S.length : List (Origin Byte)),
      ∃ start < S.length, place start = origin := by
    intro origin horigin
    obtain ⟨start, hstart, rfl⟩ := List.mem_map.mp horigin
    exact ⟨start, List.mem_range.mp hstart, rfl⟩
  obtain ⟨outcome, hallowed, happly⟩ := exists_outcome_apply patch hplaces
    fun ⟨cmd, hcmd, haction⟩ => absurd haction (hkinds cmd hcmd)
  have hunverified := apply_unverified_of_apply h
  rw [happly S _ rfl rfl] at hunverified
  obtain ⟨origins, rfl, hmade⟩ := Outcome.bind_eq_ok_iff.mp hunverified
  obtain ⟨starts, hstarts, rfl⟩ := exists_map_place (hallowed origins rfl)
  refine ⟨starts, hstarts, (Outcome.ok.inj hmade).symm, fun S' options hS' hoff => ?_⟩
  rw [happly S' options hS' hoff, Outcome.ok_bind]

/-- **Two patches in one.** If one patch without `TargetRead` turns a source into a second file, and
another one that file into a target, then some file that fits a vector loads as a valid patch that turns
the source into the target, whatever is verified, and that does to every other source of the size what
the two do one after the other. The target is no longer than `2^58` bytes, so that the file fits. -/
theorem patches_compose {p q : BPSPatch} {S M T : Bytes} {options options' : PatchOptions}
    (hp : ∀ cmd ∈ p.commands, cmd.action ≠ .targetRead)
    (hq : ∀ cmd ∈ q.commands, cmd.action ≠ .targetRead)
    (hS : S.length ≤ maxSize) (hT : T.length ≤ 2 ^ 58)
    (hfirst : p.apply S options = .ok M) (hsecond : q.apply M options' = .ok T) :
    ∃ R r, R.length ≤ maxSize ∧ loadPatchFromMemory R = .ok (.bps r) ∧ r.validate = .ok () ∧
      (∀ options, r.apply S options = .ok T) ∧
      ∀ (S' : Bytes) (options : PatchOptions), S'.length = S.length →
        options.verifyChecksums = false →
        r.apply S' options = p.apply S' options >>= fun M' => q.apply M' options := by
  obtain ⟨earlier, hearlier, rfl, hpApply⟩ := exists_starts_of_apply hp hfirst
  obtain ⟨later, hlater, rfl, hqApply⟩ := exists_starts_of_apply hq hsecond
  have hinside : ∀ origin ∈ (later.map place : List (Origin Byte)),
      origin.Inside (earlier.map (place : Nat → Origin Byte)).length := by
    rw [List.forall_mem_map]
    exact fun start hstart => (hlater start hstart).trans_eq (length_rearrange 0 _ S)
  -- the two one after the other take every byte from a place, too
  obtain ⟨starts, hstarts, hcompose⟩ := exists_map_place (n := S.length)
    (forall_mem_compose (0 : Byte) hinside (by simp) (by simpa using hearlier))
  have hboth : ∀ S' : Bytes, rearrange 0 (starts.map place) S'
      = rearrange 0 (later.map place) (rearrange 0 (earlier.map place) S') := by
    intro S'
    rw [hcompose, rearrange_compose 0 hinside]
  have hmeaning : ∀ S' : Bytes, S'.length = S.length →
      meaning S' (placeScript starts) = rearrange 0 (starts.map place) S' := by
    intro S' hS'
    rw [meaning_placeScript (hS'.symm ▸ hstarts), rearrange, List.map_map]
    rfl
  have hcount : starts.length = (rearrange 0 (later.map place)
      (rearrange 0 (earlier.map place) S)).length := by
    rw [← hboth S, length_rearrange, List.length_map]
  have hfile : (write S (placeScript starts)).length ≤ maxSize := by
    have hle := length_write_le S (placeScript starts)
    rw [placeScript, List.length_map, ← placeScript, hcount] at hle
    rw [maxSize]
    omega
  obtain ⟨r, hload, hvalid, -, -, -, happly, -⟩ := exists_load_write hS
    (placeScript_inBounds hstarts 0) (by rw [scriptLength_placeScript, hcount, maxSize]; omega) hfile
  refine ⟨_, r, hfile, hload, hvalid, fun options => ?_, fun S' options hS' hoff => ?_⟩
  · rw [happly S options rfl fun _ => ⟨rfl, rfl⟩, hmeaning S rfl, hboth S]
  -- the file between has the size that the second patch asks for, from every source
  · have hsecondSize : (rearrange 0 (earlier.map place) S').length
        = (rearrange 0 (earlier.map place) S).length := by
      rw [length_rearrange, length_rearrange]
    rw [happly S' options hS' fun hverify => absurd (hoff.symm.trans hverify) Bool.false_ne_true,
      hmeaning S' hS', hboth S', hpApply S' options hS' hoff, Outcome.ok_bind,
      hqApply _ options hsecondSize hoff]

/-- The second byte alone, and then that byte three times over. -/
theorem patches_compose_twoBytes :
    ∃ R r, R.length ≤ maxSize ∧ loadPatchFromMemory R = .ok (.bps r) ∧
      (∀ options, r.apply [7, 8] options = .ok [8, 8, 8]) ∧
      r.apply [5, 6] { verifyChecksums := false } = .ok [6, 6, 6] := by
  have hfirst : (⟨[], 2, 1, 0, [], 0, 0, 0, [Command.ofEncoded 2 2], 0⟩ : BPSPatch).apply [7, 8]
      { verifyChecksums := false } = .ok [8] := by decide +kernel
  have hsecond : (⟨[], 1, 3, 0, [], 0, 0, 0, [Command.ofEncoded 0 0, Command.ofEncoded 7 0], 0⟩ :
      BPSPatch).apply [8] { verifyChecksums := false } = .ok [8, 8, 8] := by decide +kernel
  obtain ⟨R, r, hfile, hload, -, happly, hboth⟩ :=
    patches_compose (by decide) (by decide) (by decide) (by decide) hfirst hsecond
  refine ⟨R, r, hfile, hload, happly, (hboth [5, 6] _ rfl rfl).trans ?_⟩
  decide +kernel

end IUBPatch.BPS
