import IUBPatch.Lib.OutputStream
import IUBPatch.Lib.Overwrites

/-! # Buffered output streams with a position

An `OutputStream` whose device can be written anywhere: the device says where the buffer goes, and moving
to another place flushes the buffer first. Whatever fails, the device holds what the first of the
requested elements, one after the other, make of it, up to the transfer that failed: the elements it
moved follow, and the closing puts the same elements once more behind them. -/

namespace RandomAccessStream

variable {α : Type}

/-! ### Elements with their places -/

/-- Consecutive elements one by one, each with the place it goes to. -/
def placed : (position : Nat) → List α → List (Run α)
  | _, [] => []
  | position, a :: as => ⟨position, [a]⟩ :: placed (position + 1) as

@[simp] theorem placed_nil (position : Nat) : placed position ([] : List α) = [] := rfl

theorem placed_append (position : Nat) (as bs : List α) :
    placed position (as ++ bs) = placed position as ++ placed (position + as.length) bs := by
  induction as generalizing position with
  | nil => simp
  | cons a as ih => simp [placed, ih, Nat.add_assoc, Nat.add_comm 1]

@[simp] theorem length_placed (position : Nat) (as : List α) :
    (placed position as).length = as.length := by
  induction as generalizing position with
  | nil => rfl
  | cons a as ih => rw [placed, List.length_cons, ih, List.length_cons]

variable (filler : α)

/-- What elements, one after the other, leave on an empty device; gaps are filled. -/
def replay (log : List (Run α)) : List α := log.foldl (Run.write filler) []

theorem replay_append (log more : List (Run α)) :
    replay filler (log ++ more) = more.foldl (Run.write filler) (replay filler log) := by
  rw [replay, List.foldl_append, replay]

/-- An element in front of a run. -/
theorem write_write_cons (buffer : List α) (position : Nat) (a : α) (as : List α) :
    Run.write filler (Run.write filler buffer ⟨position, [a]⟩) ⟨position + 1, as⟩
      = Run.write filler buffer ⟨position, a :: as⟩ := by
  -- the two leave the same last element everywhere, and reach the same end
  have hlast : ∀ i, Run.lastAt [⟨position, [a]⟩, ⟨position + 1, as⟩] i
      = Run.lastAt [⟨position, a :: as⟩] i := by
    intro i
    have hone : (⟨position, [a]⟩ : Run α).Covers i ↔ i = position := by
      simp only [Run.Covers, Run.stop, List.length_singleton]
      omega
    have hrest : (⟨position + 1, as⟩ : Run α).Covers i ↔
        position < i ∧ i < position + 1 + as.length := Iff.rfl
    have hwhole : (⟨position, a :: as⟩ : Run α).Covers i ↔
        position ≤ i ∧ i < position + (as.length + 1) := Iff.rfl
    simp only [Run.lastAt, Option.none_or]
    -- at the first place, within the rest, and outside both
    by_cases hfirst : i = position
    · rw [if_neg (by rw [hrest]; omega), if_pos (by rw [hone]; exact hfirst),
        if_pos (by rw [hwhole]; omega), Option.none_or, hfirst, Nat.sub_self]
      rfl
    · by_cases hin : position < i ∧ i < position + 1 + as.length
      · have hsub : i - position = i - (position + 1) + 1 := by omega
        rw [if_pos (hrest.mpr hin), if_neg (mt hone.mp hfirst), if_pos (by rw [hwhole]; omega),
          Option.or_none, hsub, List.getElem?_cons_succ]
      · rw [if_neg (mt hrest.mp hin), if_neg (mt hone.mp hfirst), if_neg (by rw [hwhole]; omega),
          Option.none_or]
  have hstop : Run.furthestStop [⟨position, [a]⟩, ⟨position + 1, as⟩] 0
      = Run.furthestStop [(⟨position, a :: as⟩ : Run α)] 0 := by
    simp [Run.furthestStop, Run.stop]
    omega
  exact Run.foldl_write_congr filler hstop hlast buffer

/-- **Elements written one by one are written as a run**, unless there are none. -/
theorem foldl_write_placed (buffer : List α) (position : Nat) {data : List α} (hdata : data ≠ []) :
    (placed position data).foldl (Run.write filler) buffer
      = Run.write filler buffer ⟨position, data⟩ := by
  induction data generalizing buffer position with
  | nil => exact absurd rfl hdata
  | cons a as ih =>
    rw [placed, List.foldl_cons]
    cases as with
    | nil => rfl
    | cons b bs => rw [ih _ _ (List.cons_ne_nil b bs), write_write_cons]

/-! ### The device -/

end RandomAccessStream

/-- What is on a device, and the place where the next element goes. -/
structure Positioned (α : Type) where
  content : List α
  position : Nat
  deriving DecidableEq, Repr

/-- Elements go where the device is positioned, over what is there; gaps are filled. -/
def Device.positioned {α : Type} (filler : α) : Device α (Positioned α) where
  put d as :=
    { content := (RandomAccessStream.placed d.position as).foldl (Run.write filler) d.content
      position := d.position + as.length }
  put_nil _ := rfl
  put_append d as bs := by
    simp [RandomAccessStream.placed_append, Nat.add_assoc]

/-- A stream on such a device. -/
abbrev RandomAccessStream (α : Type) := OutputStream α (Positioned α)

namespace RandomAccessStream

open OutputStream

variable {α : Type} (filler : α)

@[simp] theorem content_put (d : Positioned α) (as : List α) :
    ((Device.positioned filler).put d as).content
      = (placed d.position as).foldl (Run.write filler) d.content := rfl

@[simp] theorem position_put (d : Positioned α) (as : List α) :
    ((Device.positioned filler).put d as).position = d.position + as.length := rfl

/-! ### The operations -/

/-- A stream just opened on an empty device. -/
def opened : RandomAccessStream α := OutputStream.opened { content := [], position := 0 }

/-- Where the next element written will go. -/
def cursor (stream : RandomAccessStream α) : Nat := stream.device.position + stream.pending.length

/-- Move to another place: flush the buffer, and if that succeeds, position the device, which may
fail. -/
def seek (stream : RandomAccessStream α) (target : Nat) (positioned : Bool) (fault : Option Nat) :
    RandomAccessStream α :=
  let flushed := stream.flush (.positioned filler) fault
  if flushed.good then
    if positioned then { flushed with device := { flushed.device with position := target } }
    else { flushed with good := false }
  else flushed

/-- An operation on a stream, with what happens on the way. -/
inductive Operation (α : Type) where
  | write (data : List α) (transfers : List Transfer)
  | seek (target : Nat) (positioned : Bool) (fault : Option Nat)
  | flush (fault : Option Nat)
  deriving DecidableEq, Repr

/-- Perform an operation. -/
def perform (stream : RandomAccessStream α) : Operation α → RandomAccessStream α
  | .write data transfers => stream.write (.positioned filler) data transfers
  | .seek target positioned fault => seek filler stream target positioned fault
  | .flush fault => stream.flush (.positioned filler) fault

/-- The elements that operations ask to be written, with their places, from a cursor on. -/
def requested : (cursor : Nat) → List (Operation α) → List (Run α)
  | _, [] => []
  | cursor, .write data _ :: rest => placed cursor data ++ requested (cursor + data.length) rest
  | _, .seek target _ _ :: rest => requested target rest
  | cursor, .flush _ :: rest => requested cursor rest

/-- Nothing fails in the operation. -/
def Operation.Succeeds : Operation α → Prop
  | .write _ transfers => ∀ t ∈ transfers, t.fails = false
  | .seek _ positioned fault => positioned = true ∧ fault = none
  | .flush fault => fault = none

/-- The operation empties the buffer, where it succeeds. -/
def Operation.drains : Operation α → Bool
  | .write _ _ => false
  | .seek _ _ _ => true
  | .flush _ => true

/-! ### The failure state -/

section Good

variable {filler} {stream : RandomAccessStream α}

/-- An operation leaves the stream good exactly if it was and nothing fails. -/
theorem good_perform_iff (operation : Operation α) :
    (perform filler stream operation).good = true ↔ stream.good = true ∧ operation.Succeeds := by
  cases operation with
  | write data transfers => exact good_write_iff data transfers
  | seek target positioned fault =>
    -- a seek fails in its flush or in the positioning
    have hflush : (stream.flush (.positioned filler) fault).good = true ↔
        stream.good = true ∧ fault = none := good_flush_iff fault
    simp only [perform, seek, Operation.Succeeds]
    by_cases hflushed : (stream.flush (.positioned filler) fault).good = true
    · obtain ⟨hgood, hfault⟩ := hflush.mp hflushed
      rw [if_pos hflushed, and_iff_right hgood, and_iff_left hfault]
      cases positioned with
      | false => simp
      | true => simpa using hflushed
    · rw [if_neg hflushed, hflush]
      rw [hflush] at hflushed
      tauto
  | flush fault => exact good_flush_iff fault

/-- A stream that is not good stays as it is. -/
theorem perform_of_not_good (h : stream.good = false) (operation : Operation α) :
    perform filler stream operation = stream := by
  cases operation with
  | write data transfers => exact write_of_not_good h data transfers
  | seek target positioned fault => simp [perform, seek, flush_of_not_good h, h]
  | flush fault => exact flush_of_not_good h fault

theorem foldl_perform_of_not_good (h : stream.good = false) (operations : List (Operation α)) :
    operations.foldl (perform filler) stream = stream := by
  induction operations with
  | nil => rfl
  | cons operation operations ih => rw [List.foldl_cons, perform_of_not_good h, ih]

/-- **A stream is good after operations exactly if it was and none of them fails.** -/
theorem good_foldl_perform_iff (operations : List (Operation α)) :
    (operations.foldl (perform filler) stream).good = true ↔
      stream.good = true ∧ ∀ operation ∈ operations, operation.Succeeds := by
  induction operations generalizing stream with
  | nil => simp
  | cons operation operations ih =>
    rw [List.foldl_cons, ih, good_perform_iff, and_assoc, List.forall_mem_cons]

end Good

/-! ### What the device holds -/

/-- The elements `moved` have made the device, and the buffer holds the others of those accepted. A
transfer that failed has put some of these on the device as well, without taking them out of the
buffer. -/
def Holds (moved accepted : List (Run α)) (stream : RandomAccessStream α) : Prop :=
  ∃ start again,
    stream.device = (Device.positioned filler).put ⟨replay filler moved, start⟩
      (stream.pending.take again) ∧
    accepted = moved ++ placed start stream.pending ∧
    (stream.good = true → again = 0)

/-- What elements leave, and behind them the first `again` of a rest and then, from its start, the first
`count`. -/
def left (log : List (Run α)) (start : Nat) (rest : List α) (again count : Nat) : List α :=
  replay filler (log ++ placed start (rest.take again)
    ++ placed (start + (rest.take again).length) (rest.take count))

section Holds

variable {filler} {moved accepted : List (Run α)} {stream : RandomAccessStream α}

theorem holds_opened : Holds filler [] [] (opened : RandomAccessStream α) :=
  ⟨0, 0, rfl, rfl, fun _ => rfl⟩

/-- On a good stream nothing is both on the device and in the buffer. -/
theorem holds_iff_of_good (hgood : stream.good = true) :
    Holds filler moved accepted stream ↔
      stream.device.content = replay filler moved ∧
        accepted = moved ++ placed stream.device.position stream.pending := by
  constructor
  · rintro ⟨start, again, hdevice, haccepted, hagain⟩
    rw [hagain hgood, List.take_zero, (Device.positioned filler).put_nil] at hdevice
    rw [hdevice]
    exact ⟨rfl, haccepted⟩
  · rintro ⟨hcontent, haccepted⟩
    refine ⟨stream.device.position, 0, ?_, haccepted, fun _ => rfl⟩
    rw [List.take_zero, (Device.positioned filler).put_nil, ← hcontent]

/-- With an empty buffer all elements have been moved. -/
theorem Holds.of_pending_eq_nil (h : Holds filler moved accepted stream)
    (hpending : stream.pending = []) : moved = accepted := by
  obtain ⟨start, again, -, haccepted, -⟩ := h
  rw [haccepted, hpending, placed_nil, List.append_nil]

/-- **A transfer** moves elements and accepts none; the cursor stays where it succeeds. -/
theorem Holds.transfer (h : Holds filler moved accepted stream) (t : Transfer) :
    (∃ moved', moved <+: moved' ∧
        Holds filler moved' accepted (stream.transfer (.positioned filler) t)) ∧
      ((stream.transfer (.positioned filler) t).good = true →
        cursor (stream.transfer (.positioned filler) t) = cursor stream) := by
  cases hgood : stream.good with
  | false =>
    rw [transfer_of_not_good hgood]
    exact ⟨⟨moved, List.prefix_rfl, h⟩, fun _ => rfl⟩
  | true =>
    obtain ⟨hcontent, haccepted⟩ := (holds_iff_of_good hgood).mp h
    cases ht : t.fails with
    | true =>
      -- the buffer stays, and what was moved from it is on the device as well
      rw [transfer_of_fails hgood ht]
      refine ⟨⟨moved, List.prefix_rfl, stream.device.position, t.count, ?_, haccepted, ?_⟩, ?_⟩
      · rw [← hcontent]
      all_goals exact fun h => by cases h
    | false =>
      rw [transfer_of_good hgood ht]
      constructor
      · refine ⟨moved ++ placed stream.device.position (stream.pending.take t.count),
          List.prefix_append _ _, (holds_iff_of_good rfl).mpr ⟨?_, ?_⟩⟩
        · rw [content_put, hcontent, replay_append]
        · have hsplit := placed_append stream.device.position (stream.pending.take t.count)
            (stream.pending.drop t.count)
          rw [List.take_append_drop] at hsplit
          rw [haccepted, hsplit, List.append_assoc]
          rfl
      -- what leaves the buffer moves the position on by as much
      · intro _
        simp only [cursor, position_put, List.length_take, List.length_drop]
        omega

/-- Transfers move elements and accept none. -/
theorem Holds.foldl_transfer (h : Holds filler moved accepted stream) (transfers : List Transfer) :
    (∃ moved', moved <+: moved' ∧ Holds filler moved' accepted
        (transfers.foldl (OutputStream.transfer (.positioned filler)) stream)) ∧
      ((transfers.foldl (OutputStream.transfer (.positioned filler)) stream).good = true →
        cursor (transfers.foldl (OutputStream.transfer (.positioned filler)) stream)
          = cursor stream) := by
  induction transfers generalizing moved stream with
  | nil => exact ⟨⟨moved, List.prefix_rfl, h⟩, fun _ => rfl⟩
  | cons t transfers ih =>
    obtain ⟨⟨moved', hmoved, h'⟩, hcursor⟩ := h.transfer t
    obtain ⟨⟨moved'', hmoved', h''⟩, hcursor'⟩ := ih h'
    refine ⟨⟨moved'', hmoved.trans hmoved', h''⟩, fun hgood => ?_⟩
    -- a stream that ends good was good after the first transfer
    have hfirst := ((good_foldl_transfer_iff transfers).mp hgood).1
    exact (hcursor' hgood).trans (hcursor hfirst)

/-- A write to a good stream accepts its elements at the cursor. -/
theorem Holds.write (h : Holds filler moved accepted stream) (hgood : stream.good = true)
    (data : List α) (transfers : List Transfer) :
    (∃ moved', moved <+: moved' ∧ Holds filler moved' (accepted ++ placed (cursor stream) data)
        (stream.write (.positioned filler) data transfers)) ∧
      ((stream.write (.positioned filler) data transfers).good = true →
        cursor (stream.write (.positioned filler) data transfers)
          = cursor stream + data.length) := by
  -- the elements go into the buffer first, and from there by transfers
  have hbuffered : Holds filler moved (accepted ++ placed (cursor stream) data)
      { stream with pending := stream.pending ++ data } := by
    obtain ⟨hcontent, haccepted⟩ := (holds_iff_of_good hgood).mp h
    refine (holds_iff_of_good (by exact hgood)).mpr ⟨hcontent, ?_⟩
    rw [haccepted, placed_append, List.append_assoc]
    rfl
  rw [OutputStream.write, if_pos hgood]
  obtain ⟨hmoved, hcursor⟩ := hbuffered.foldl_transfer transfers
  refine ⟨hmoved, fun hafter => ?_⟩
  rw [hcursor hafter]
  simp [cursor, Nat.add_assoc]

/-- A flush moves elements and accepts none. -/
theorem Holds.flush (h : Holds filler moved accepted stream) (fault : Option Nat) :
    (∃ moved', moved <+: moved' ∧
        Holds filler moved' accepted (stream.flush (.positioned filler) fault)) ∧
      ((stream.flush (.positioned filler) fault).good = true →
        cursor (stream.flush (.positioned filler) fault) = cursor stream) := by
  cases fault <;> exact h.transfer _

/-- Moving to another place moves elements and accepts none; where it succeeds, the cursor is there. -/
theorem Holds.seek (h : Holds filler moved accepted stream) (target : Nat) (positioned : Bool)
    (fault : Option Nat) :
    (∃ moved', moved <+: moved' ∧
        Holds filler moved' accepted (seek filler stream target positioned fault)) ∧
      ((seek filler stream target positioned fault).good = true →
        cursor (seek filler stream target positioned fault) = target) := by
  obtain ⟨⟨moved', hmoved, h'⟩, -⟩ := h.flush fault
  simp only [RandomAccessStream.seek]
  by_cases hflushed : (stream.flush (.positioned filler) fault).good = true
  · have hpending := pending_flush_eq_nil hflushed
    obtain ⟨hcontent, haccepted⟩ := (holds_iff_of_good hflushed).mp h'
    rw [if_pos hflushed]
    cases positioned with
    | false =>
      refine ⟨⟨moved', hmoved, _, 0, ?_, haccepted, fun _ => rfl⟩, fun hgood => by cases hgood⟩
      rw [List.take_zero, (Device.positioned filler).put_nil, ← hcontent]
      rfl
    | true =>
      refine ⟨⟨moved', hmoved, (holds_iff_of_good (by exact hflushed)).mpr ⟨hcontent, ?_⟩⟩,
        fun _ => ?_⟩
      · -- an empty buffer may be anywhere
        rw [haccepted]
        simp [hpending]
      · simp [cursor, hpending]
  · rw [if_neg hflushed]
    exact ⟨⟨moved', hmoved, h'⟩, fun hgood => absurd hgood hflushed⟩

/-- After an operation that empties the buffer, and succeeds, it is empty. -/
theorem pending_perform_eq_nil {operation : Operation α} (hdrains : operation.drains = true)
    (h : (perform filler stream operation).good = true) :
    (perform filler stream operation).pending = [] := by
  cases operation with
  | write data transfers => cases hdrains
  | flush fault => exact pending_flush_eq_nil h
  | seek target positioned fault =>
    simp only [perform, RandomAccessStream.seek] at h ⊢
    by_cases hflushed : (stream.flush (.positioned filler) fault).good = true
    · rw [if_pos hflushed]
      cases positioned <;> exact pending_flush_eq_nil hflushed
    · rw [if_neg hflushed] at h
      exact absurd h hflushed

/-- **One operation** accepts the first of the elements it is asked to write, and all of them if it
succeeds; what has been moved stays. -/
theorem Holds.perform (h : Holds filler moved accepted stream) (operation : Operation α) :
    ∃ moved' done, moved <+: moved' ∧
      Holds filler moved' (accepted ++ done) (perform filler stream operation) ∧
      (∀ rest, done <+: requested (cursor stream) (operation :: rest)) ∧
      ((perform filler stream operation).good = true → ∀ rest,
        requested (cursor stream) (operation :: rest)
          = done ++ requested (cursor (perform filler stream operation)) rest) := by
  cases operation with
  | write data transfers =>
    cases hgood : stream.good with
    | false =>
      -- a stream that has failed takes nothing
      rw [perform_of_not_good hgood]
      refine ⟨moved, [], List.prefix_rfl, by rwa [List.append_nil], fun rest => List.nil_prefix,
        fun hafter => ?_⟩
      rw [hgood] at hafter
      cases hafter
    | true =>
      obtain ⟨⟨moved', hmoved, h'⟩, hcursor⟩ := h.write hgood data transfers
      refine ⟨moved', placed (cursor stream) data, hmoved, h', fun rest => List.prefix_append _ _,
        fun hafter rest => ?_⟩
      rw [RandomAccessStream.perform, hcursor hafter, requested]
  | flush fault =>
    obtain ⟨⟨moved', hmoved, h'⟩, hcursor⟩ := h.flush fault
    refine ⟨moved', [], hmoved, by rwa [List.append_nil], fun rest => List.nil_prefix,
      fun hafter rest => ?_⟩
    rw [RandomAccessStream.perform, hcursor hafter, requested, List.nil_append]
  | seek target positioned fault =>
    obtain ⟨⟨moved', hmoved, h'⟩, hcursor⟩ := h.seek target positioned fault
    refine ⟨moved', [], hmoved, by rwa [List.append_nil], fun rest => List.nil_prefix,
      fun hafter rest => ?_⟩
    rw [RandomAccessStream.perform, hcursor hafter, requested, List.nil_append]

/-- **A run of operations** accepts the first of the elements it is asked to write, all of them if the
stream is still good. What has been moved stays, and an operation that empties the buffer, and succeeds,
has moved all that was asked before it. -/
theorem Holds.foldl_perform (h : Holds filler moved accepted stream)
    (operations : List (Operation α)) :
    ∃ moved' done, moved <+: moved' ∧ done <+: requested (cursor stream) operations ∧
      Holds filler moved' (accepted ++ done)
        (operations.foldl (RandomAccessStream.perform filler) stream) ∧
      ∀ before operation after, operations = before ++ operation :: after →
        operation.drains = true →
        ((before ++ [operation]).foldl (RandomAccessStream.perform filler) stream).good = true →
        accepted ++ requested (cursor stream) before <+: moved' := by
  induction operations generalizing moved accepted stream with
  | nil =>
    refine ⟨moved, [], List.prefix_rfl, List.prefix_rfl, by simpa using h, ?_⟩
    intro before operation after hsplit
    simp at hsplit
  | cons first operations ih =>
    obtain ⟨moved', more, hmoved, h', hmore, hrequested⟩ := h.perform first
    by_cases hgood : (RandomAccessStream.perform filler stream first).good = true
    · -- the rest goes on from where the first operation leaves the cursor
      obtain ⟨moved'', done, hmoved', hdone, h'', hdrained⟩ := ih h'
      refine ⟨moved'', more ++ done, hmoved.trans hmoved', ?_, ?_, ?_⟩
      · rw [hrequested hgood]
        exact (List.prefix_append_right_inj _).mpr hdone
      · rw [← List.append_assoc]
        exact h''
      · intro before operation after hsplit hdrains hmid
        cases before with
        | nil =>
          obtain ⟨rfl, -⟩ := List.cons.inj hsplit
          have hempty := h'.of_pending_eq_nil (pending_perform_eq_nil hdrains hgood)
          rw [requested, List.append_nil]
          exact (List.prefix_append _ _).trans (hempty ▸ hmoved')
        | cons _ before =>
          obtain ⟨rfl, hrest⟩ := List.cons.inj hsplit
          rw [hrequested hgood, ← List.append_assoc]
          exact hdrained before operation after hrest hdrains hmid
    · -- the first operation fails, and nothing more happens
      rw [List.foldl_cons, foldl_perform_of_not_good (by simpa using hgood)]
      refine ⟨moved', more, hmoved, hmore operations, h', ?_⟩
      intro before operation after hsplit hdrains hmid
      have hfirst : (RandomAccessStream.perform filler stream first).good = true := by
        cases before with
        | nil =>
          obtain ⟨rfl, -⟩ := List.cons.inj hsplit
          exact hmid
        | cons _ before =>
          obtain ⟨rfl, -⟩ := List.cons.inj hsplit
          rw [List.cons_append, List.foldl_cons] at hmid
          exact ((good_foldl_perform_iff _).mp hmid).1
      exact absurd hfirst hgood

/-- **What is left on the device** when the stream is closed: what the elements moved make of it, then
those of the buffer that the transfer that failed has put behind them, then once more its first
elements, as far as the closing moves them. -/
theorem Holds.close (h : Holds filler moved accepted stream) (count : Nat) :
    ∃ start rest again,
      (stream.close (.positioned filler) count).content
        = left filler moved start rest again count ∧
      accepted = moved ++ placed start rest ∧ (stream.good = true → again = 0) := by
  obtain ⟨start, again, hdevice, haccepted, hagain⟩ := h
  refine ⟨start, stream.pending, again, ?_, haccepted, hagain⟩
  rw [OutputStream.close, hdevice, content_put, left, replay_append, replay_append]
  rfl

end Holds

/-! ### Streams that are never positioned -/

/-- Elements placed behind a buffer are appended to it. -/
theorem foldl_write_placed_length (buffer data : List α) :
    (placed buffer.length data).foldl (Run.write filler) buffer = buffer ++ data := by
  induction data generalizing buffer with
  | nil => simp
  | cons a as ih =>
    have hfirst : Run.write filler buffer ⟨buffer.length, [a]⟩ = buffer ++ [a] := by
      simp [Run.write, Run.stop]
    have hlength : buffer.length + 1 = (buffer ++ [a]).length := by simp
    rw [placed, List.foldl_cons, hfirst, hlength, ih, List.append_assoc, List.singleton_append]

/-- A device that only appends, as one that is positioned at its end. -/
def atEnd (d : List α) : Positioned α := { content := d, position := d.length }

/-- **Without positioning, elements are appended.** -/
theorem hom_atEnd : Device.appending.Hom (Device.positioned filler) atEnd where
  map_put d as := by
    rw [Device.put_appending, atEnd, List.length_append, ← foldl_write_placed_length filler]
    rfl

end RandomAccessStream
