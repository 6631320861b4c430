import Mathlib.Algebra.GroupWithZero.Nat
import Mathlib.Data.List.Basic
import Mathlib.Tactic.Common

/-! # Buffered output streams that may fail

A stream is a buffer in front of a device. Elements reach the device in transfers from the start of the
buffer, each of which may move any number of them and may fail. A transfer that succeeds takes what it
has moved out of the buffer; one that fails leaves the buffer as it is, and the failure is remembered
and stops the transfers that follow. Closing the stream makes a last transfer, whatever has failed, and
reports nothing: behind a transfer that failed it moves the same elements once more. -/

/-- One transfer from the buffer to the device: how many elements it moves, and whether it fails after
them. -/
structure Transfer where
  count : Nat
  fails : Bool
  deriving DecidableEq, Repr

/-- A device that takes elements in portions: no elements change nothing, and some and then more are all
of them at once. -/
structure Device (α δ : Type) where
  put : δ → List α → δ
  put_nil : ∀ d, put d [] = d
  put_append : ∀ d as bs, put d (as ++ bs) = put (put d as) bs

namespace Device

variable {α δ δ' : Type}

/-- Elements go behind those that are there. -/
def appending : Device α (List α) where
  put d as := d ++ as
  put_nil := List.append_nil
  put_append d as bs := (List.append_assoc d as bs).symm

@[simp] theorem put_appending (d as : List α) : appending.put d as = d ++ as := rfl

/-- What one device holds, seen as what the other one does. -/
structure Hom (dev : Device α δ) (dev' : Device α δ') (f : δ → δ') : Prop where
  map_put : ∀ d as, f (dev.put d as) = dev'.put (f d) as

end Device

/-- A stream: the elements still buffered, the device, and the failure state. -/
structure OutputStream (α δ : Type) where
  pending : List α
  device : δ
  good : Bool
  deriving DecidableEq, Repr

namespace OutputStream

variable {α δ δ' : Type}

/-- A stream just opened on a device. -/
def opened (d : δ) : OutputStream α δ := { pending := [], device := d, good := true }

variable (dev : Device α δ)

/-- A transfer; after a failure there is none. Where it fails, what it has moved is still in the
buffer. -/
def transfer (stream : OutputStream α δ) (t : Transfer) : OutputStream α δ :=
  if stream.good then
    { pending := if t.fails then stream.pending else stream.pending.drop t.count
      device := dev.put stream.device (stream.pending.take t.count)
      good := !t.fails }
  else stream

/-- Write elements, with the transfers that happen on the way. -/
def write (stream : OutputStream α δ) (data : List α) (transfers : List Transfer) :
    OutputStream α δ :=
  transfers.foldl (transfer dev)
    (if stream.good then { stream with pending := stream.pending ++ data } else stream)

/-- Flush the buffer: everything in it, or a part of it and then a failure. -/
def flush (stream : OutputStream α δ) (fault : Option Nat) : OutputStream α δ :=
  match fault with
  | none => stream.transfer dev ⟨stream.pending.length, false⟩
  | some count => stream.transfer dev ⟨count, true⟩

/-- The device after the stream is closed, which moves up to `count` elements from the start of the
buffer. -/
def close (stream : OutputStream α δ) (count : Nat) : δ :=
  dev.put stream.device (stream.pending.take count)

/-! ### The failure state -/

section Good

variable {dev} {stream : OutputStream α δ}

theorem transfer_of_not_good (h : stream.good = false) (t : Transfer) :
    stream.transfer dev t = stream := by
  rw [transfer, h]
  rfl

/-- A transfer that succeeds. -/
theorem transfer_of_good (h : stream.good = true) {t : Transfer} (ht : t.fails = false) :
    stream.transfer dev t = ⟨stream.pending.drop t.count,
      dev.put stream.device (stream.pending.take t.count), true⟩ := by
  simp [transfer, h, ht]

/-- A transfer that fails. -/
theorem transfer_of_fails (h : stream.good = true) {t : Transfer} (ht : t.fails = true) :
    stream.transfer dev t = ⟨stream.pending,
      dev.put stream.device (stream.pending.take t.count), false⟩ := by
  simp [transfer, h, ht]

/-- The failure state after a transfer. -/
theorem good_transfer_iff (t : Transfer) :
    (stream.transfer dev t).good = true ↔ stream.good = true ∧ t.fails = false := by
  rw [transfer]
  cases hgood : stream.good <;> simp [hgood]

/-- The failure state after a run of transfers: good if none of them failed. -/
theorem good_foldl_transfer_iff (transfers : List Transfer) :
    (transfers.foldl (transfer dev) stream).good = true ↔
      stream.good = true ∧ ∀ t ∈ transfers, t.fails = false := by
  induction transfers generalizing stream with
  | nil => simp
  | cons t transfers ih =>
    rw [List.foldl_cons, ih, good_transfer_iff, and_assoc, List.forall_mem_cons]

theorem good_write_iff (data : List α) (transfers : List Transfer) :
    (stream.write dev data transfers).good = true ↔
      stream.good = true ∧ ∀ t ∈ transfers, t.fails = false := by
  rw [write, good_foldl_transfer_iff]
  cases hgood : stream.good <;> simp [hgood]

theorem good_flush_iff (fault : Option Nat) :
    (stream.flush dev fault).good = true ↔ stream.good = true ∧ fault = none := by
  cases fault <;> simp [flush, good_transfer_iff]

/-- A stream that is not good takes nothing. -/
theorem write_of_not_good (h : stream.good = false) (data : List α) (transfers : List Transfer) :
    stream.write dev data transfers = stream := by
  rw [write, h, if_neg Bool.false_ne_true]
  induction transfers with
  | nil => rfl
  | cons t transfers ih => rw [List.foldl_cons, transfer_of_not_good h, ih]

theorem flush_of_not_good (h : stream.good = false) (fault : Option Nat) :
    stream.flush dev fault = stream := by
  cases fault <;> exact transfer_of_not_good h _

/-- After a flush that succeeds the buffer is empty. -/
theorem pending_flush_eq_nil {fault : Option Nat} (h : (stream.flush dev fault).good = true) :
    (stream.flush dev fault).pending = [] := by
  obtain ⟨hgood, rfl⟩ := (good_flush_iff fault).mp h
  rw [flush, transfer_of_good hgood rfl]
  exact List.drop_length

end Good

/-! ### How far a stream has come -/

/-- The first `n` elements are on the device, the others in the buffer. -/
structure At (d : δ) (data : List α) (n : Nat) (stream : OutputStream α δ) : Prop where
  device : stream.device = dev.put d (data.take n)
  pending : stream.pending = data.drop n

section Progress

variable {dev} {d : δ} {data : List α} {n : Nat} {stream : OutputStream α δ}

/-- **One step of the progress**: a transfer that succeeds moves the stream on by its count. -/
theorem At.transfer (h : At dev d data n stream) (hgood : stream.good = true) {t : Transfer}
    (ht : t.fails = false) : At dev d data (n + t.count) (stream.transfer dev t) := by
  obtain ⟨hdevice, hpending⟩ := h
  rw [transfer_of_good hgood ht]
  constructor
  · rw [hdevice, hpending, ← dev.put_append, List.take_add]
  · rw [hpending, List.drop_drop]

/-- A run of transfers that ends well moves the stream on by all their counts. -/
theorem At.foldl_transfer {transfers : List Transfer} (h : At dev d data n stream)
    (hgood : (transfers.foldl (OutputStream.transfer dev) stream).good = true) :
    At dev d data (n + (transfers.map Transfer.count).sum)
      (transfers.foldl (OutputStream.transfer dev) stream) := by
  induction transfers generalizing stream n with
  | nil => exact h
  | cons t transfers ih =>
    rw [List.foldl_cons] at hgood ⊢
    -- the stream was good before the first transfer, or nothing after it could be
    have hfirst := ((good_foldl_transfer_iff transfers).mp hgood).1
    obtain ⟨hstart, ht⟩ := (good_transfer_iff t).mp hfirst
    have hrest := ih (h.transfer hstart ht) hgood
    rwa [List.map_cons, List.sum_cons, ← Nat.add_assoc]

end Progress

/-! ### Writing once -/

/-- An accepted write to a fresh stream stands as far as its transfers moved it. -/
theorem at_write_opened {dev : Device α δ} (d : δ) (data : List α) {transfers : List Transfer}
    (hgood : ∀ t ∈ transfers, t.fails = false) :
    At dev d data (transfers.map Transfer.count).sum ((opened d).write dev data transfers) := by
  have hstart : At dev d data 0 (⟨[] ++ data, d, true⟩ : OutputStream α δ) :=
    ⟨(dev.put_nil d).symm, rfl⟩
  have hend : ((opened d).write dev data transfers).good = true :=
    (good_write_iff data transfers).mpr ⟨rfl, hgood⟩
  have hat := hstart.foldl_transfer hend
  rw [Nat.zero_add] at hat
  exact hat

/-- What reaches the device of one write: all of it if the flush succeeds; else what the transfers
moved, what the failing flush moved of the rest, and what the closing moved of the same rest. -/
def reached (data : List α) (transfers : List Transfer) (flushFault : Option Nat) (closing : Nat) :
    List α :=
  match flushFault with
  | none => data
  | some count =>
    let moved := (transfers.map Transfer.count).sum
    data.take moved ++ (data.drop moved).take count ++ (data.drop moved).take closing

/-- **What one accepted write leaves on the device.** -/
theorem close_flush_write {dev : Device α δ} (d : δ) {data : List α} {transfers : List Transfer}
    (hgood : ∀ t ∈ transfers, t.fails = false) (flushFault : Option Nat) (closing : Nat) :
    (((opened d).write dev data transfers).flush dev flushFault).close dev closing
      = dev.put d (reached data transfers flushFault closing) := by
  have hwritten : ((opened d).write dev data transfers).good = true :=
    (good_write_iff data transfers).mpr ⟨rfl, hgood⟩
  obtain ⟨hdevice, hpending⟩ : At dev d data (transfers.map Transfer.count).sum
      ((opened d).write dev data transfers) := at_write_opened d data hgood
  cases flushFault with
  | none =>
    -- the flush empties the buffer, so that the closing has nothing to move
    rw [flush, close, transfer_of_good hwritten rfl, hdevice, hpending]
    dsimp only
    rw [List.take_length, List.drop_length, List.take_nil, dev.put_nil, ← dev.put_append,
      List.take_append_drop, reached]
  | some count =>
    rw [flush, close, transfer_of_fails hwritten rfl, hdevice, hpending, reached]
    dsimp only
    rw [dev.put_append, dev.put_append]

example : reached [1, 2] [] (some 1) 2 = [1, 1, 2] := rfl

/-- Two moves, each from the start of a list, make the list exactly if they are as long as it is, and
from where the first one ends the list is its own beginning. -/
theorem take_append_take_eq_iff (left : List α) (count closing : Nat) :
    left.take count ++ left.take closing = left ↔
      min count left.length + min closing left.length = left.length ∧
        left.drop count = left.take (left.length - count) := by
  constructor
  · intro h
    have hlength := congrArg List.length h
    rw [List.length_append, List.length_take, List.length_take] at hlength
    refine ⟨hlength, ?_⟩
    have hsecond : left.take closing = left.drop count :=
      List.append_cancel_left (h.trans (List.take_append_drop count left).symm)
    rw [← hsecond, List.take_eq_take_iff]
    omega
  · rintro ⟨hlength, hagain⟩
    have hsecond : left.take closing = left.take (left.length - count) := by
      rw [List.take_eq_take_iff]
      omega
    rw [hsecond, ← hagain, List.take_append_drop]

/-- The flush succeeds; or, of what the transfers have left, the failing flush and the closing move as
many elements as there are, and from where the flush stops these are their own beginning: nothing by the
one and everything by the other, say. -/
def Complete (data : List α) (transfers : List Transfer) (flushFault : Option Nat) (closing : Nat) :
    Prop :=
  match flushFault with
  | none => True
  | some count =>
    let left := data.drop (transfers.map Transfer.count).sum
    min count left.length + min closing left.length = left.length ∧
      left.drop count = left.take (left.length - count)

instance [DecidableEq α] (data : List α) (transfers : List Transfer) :
    (flushFault : Option Nat) → (closing : Nat) → Decidable (Complete data transfers flushFault closing)
  | none, _ => inferInstanceAs (Decidable True)
  | some _, _ => inferInstanceAs (Decidable (_ ∧ _))

/-- **What reaches the device is what was written exactly if it is complete.** -/
theorem reached_eq_iff (data : List α) (transfers : List Transfer) (flushFault : Option Nat)
    (closing : Nat) :
    reached data transfers flushFault closing = data ↔
      Complete data transfers flushFault closing := by
  cases flushFault with
  | none => exact iff_of_true rfl trivial
  | some count =>
    rw [Complete, ← take_append_take_eq_iff, reached, List.append_assoc]
    -- what the transfers have moved is there in any case
    nth_rewrite 4 [← List.take_append_drop (transfers.map Transfer.count).sum data]
    exact List.append_right_inj _

/-! ### Devices seen as others -/

/-- The stream, with another view of its device. -/
def map (f : δ → δ') (stream : OutputStream α δ) : OutputStream α δ' :=
  { pending := stream.pending, device := f stream.device, good := stream.good }

@[simp] theorem good_map (f : δ → δ') (stream : OutputStream α δ) :
    (stream.map f).good = stream.good := rfl

section Map

variable {dev} {dev' : Device α δ'} {f : δ → δ'}

theorem map_transfer (h : dev.Hom dev' f) (stream : OutputStream α δ) (t : Transfer) :
    (stream.transfer dev t).map f = (stream.map f).transfer dev' t := by
  rw [transfer, transfer]
  cases hgood : stream.good <;> simp [map, hgood, h.map_put]

theorem map_foldl_transfer (h : dev.Hom dev' f) (stream : OutputStream α δ)
    (transfers : List Transfer) : (transfers.foldl (transfer dev) stream).map f
      = transfers.foldl (transfer dev') (stream.map f) := by
  induction transfers generalizing stream with
  | nil => rfl
  | cons t transfers ih => rw [List.foldl_cons, ih, map_transfer h, List.foldl_cons]

/-- **The operations do the same on both devices.** -/
theorem map_write (h : dev.Hom dev' f) (stream : OutputStream α δ) (data : List α)
    (transfers : List Transfer) :
    (stream.write dev data transfers).map f = (stream.map f).write dev' data transfers := by
  have hstart : (if stream.good then { stream with pending := stream.pending ++ data } else stream).map f
      = if (stream.map f).good then
          { stream.map f with pending := (stream.map f).pending ++ data } else stream.map f := by
    cases hgood : stream.good <;> simp [map, hgood]
  rw [write, map_foldl_transfer h, hstart, write]

theorem map_flush (h : dev.Hom dev' f) (stream : OutputStream α δ) (fault : Option Nat) :
    (stream.flush dev fault).map f = (stream.map f).flush dev' fault := by
  cases fault <;> exact map_transfer h stream _

theorem map_close (h : dev.Hom dev' f) (stream : OutputStream α δ) (count : Nat) :
    f (stream.close dev count) = (stream.map f).close dev' count := by
  rw [close, close, h.map_put]
  rfl

end Map

end OutputStream
