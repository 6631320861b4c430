import IUBPatch.FileIO
import IUBPatch.Lib.RandomAccessStream

/-! # Writing files piece by piece

The writers of `io.cc`: `write`, `write_at` and `flush`, called any number of times in any order, each
with its own failures. `flush` reports none of them; a failure shows in the next write. -/

namespace IUBPatch

open RandomAccessStream

/-- What fails in one call on a writer. -/
structure WriterFaults where
  /-- The transfers to the device during `write`. -/
  duringWrite : List Transfer := []
  /-- The transfer of `seekp` fails after this many bytes. -/
  duringSeek : Option Nat := none
  /-- The file cannot be positioned. -/
  seekFails : Bool := false
  /-- The transfer of `flush` fails after this many bytes. -/
  duringFlush : Option Nat := none
  deriving DecidableEq, Repr

/-- `BufferedFileWriter`: its `std::ofstream`. A file written behind its end has zeros in the gap. -/
abbrev FileWriter := RandomAccessStream Byte

namespace FileWriter

/-- `BufferedFileWriter::write`: the result, and the writer after it. -/
def write (faults : WriterFaults) (writer : FileWriter) (data : Bytes) : Result Unit × FileWriter :=
  let writer := OutputStream.write (.positioned 0) writer data faults.duringWrite
  (if writer.good then .ok () else .error writeError, writer)

/-- `seekp` positions the file; it takes a signed offset, which from `2^63` on is negative. -/
def positions (faults : WriterFaults) (offset : UInt64) : Bool :=
  offset.toNat < 2 ^ 63 && !faults.seekFails

/-- `BufferedFileWriter::write_at`: the result of `seekp` is not looked at. -/
def writeAt (faults : WriterFaults) (writer : FileWriter) (offset : UInt64) (data : Bytes) :
    Result Unit × FileWriter :=
  let writer :=
    RandomAccessStream.seek 0 writer offset.toNat (positions faults offset) faults.duringSeek
  write faults writer data

/-- `BufferedFileWriter::flush`: the failure state is not looked at. -/
def flush (faults : WriterFaults) (writer : FileWriter) : Result Unit × FileWriter :=
  (.ok (), OutputStream.flush (.positioned 0) writer faults.duringFlush)

/-- A call on a writer. -/
inductive Request where
  | write (data : Bytes)
  | writeAt (offset : UInt64) (data : Bytes)
  | flush
  deriving DecidableEq, Repr

/-- Make the call. -/
def serve (faults : WriterFaults) (writer : FileWriter) : Request → Result Unit × FileWriter
  | .write data => write faults writer data
  | .writeAt offset data => writeAt faults writer offset data
  | .flush => flush faults writer

/-- Calls one after the other, each with its failures: the results, and the writer after them. -/
def session (writer : FileWriter) :
    List (Request × WriterFaults) → List (Result Unit) × FileWriter
  | [] => ([], writer)
  | (request, faults) :: calls =>
    let (answer, writer) := serve faults writer request
    let (answers, writer) := session writer calls
    (answer :: answers, writer)

/-- The bytes that calls ask to be written, with their places, from a place on. -/
def asked : (cursor : Nat) → List Request → List (Run Byte)
  | _, [] => []
  | cursor, .write data :: rest => placed cursor data ++ asked (cursor + data.length) rest
  | _, .writeAt offset data :: rest =>
    placed offset.toNat data ++ asked (offset.toNat + data.length) rest
  | cursor, .flush :: rest => asked cursor rest

/-- Nothing fails in the call. -/
def Request.Succeeds (faults : WriterFaults) : Request → Prop
  | .write _ => ∀ t ∈ faults.duringWrite, t.fails = false
  | .writeAt offset _ => positions faults offset = true ∧ faults.duringSeek = none ∧
      ∀ t ∈ faults.duringWrite, t.fails = false
  | .flush => faults.duringFlush = none

instance (faults : WriterFaults) : (request : Request) → Decidable (request.Succeeds faults)
  | .write _ => inferInstanceAs (Decidable (∀ t ∈ faults.duringWrite, t.fails = false))
  | .writeAt _ _ => inferInstanceAs (Decidable (_ ∧ _ ∧ ∀ t ∈ faults.duringWrite, t.fails = false))
  | .flush => inferInstanceAs (Decidable (faults.duringFlush = none))

/-- The number of calls before the first one in which something fails. -/
def firstFailure (calls : List (Request × WriterFaults)) : Nat :=
  calls.findIdx fun call => ¬ call.1.Succeeds call.2

/-! ### Calls as operations on the stream -/

/-- The operations of a call on the stream. -/
def Request.operations (faults : WriterFaults) : Request → List (Operation Byte)
  | .write data => [.write data faults.duringWrite]
  | .writeAt offset data =>
    [.seek offset.toNat (positions faults offset) faults.duringSeek, .write data faults.duringWrite]
  | .flush => [.flush faults.duringFlush]

/-- The operations of calls on the stream. -/
def operations (calls : List (Request × WriterFaults)) : List (Operation Byte) :=
  calls.flatMap fun call => call.1.operations call.2

theorem serve_writer (faults : WriterFaults) (writer : FileWriter) (request : Request) :
    (serve faults writer request).2 = (request.operations faults).foldl (perform 0) writer := by
  cases request <;> rfl

/-- A write reports the failure state, a flush nothing. -/
theorem serve_answer (faults : WriterFaults) (writer : FileWriter) (request : Request) :
    (serve faults writer request).1
      = if request = .flush ∨ (serve faults writer request).2.good = true then .ok ()
        else .error writeError := by
  cases request <;> simp [serve, write, writeAt, flush]

theorem succeeds_iff (faults : WriterFaults) (request : Request) :
    request.Succeeds faults ↔ ∀ operation ∈ request.operations faults, operation.Succeeds := by
  cases request <;>
    simp [Request.Succeeds, Request.operations, Operation.Succeeds, and_assoc]

theorem session_writer (writer : FileWriter) (calls : List (Request × WriterFaults)) :
    (session writer calls).2 = (operations calls).foldl (perform 0) writer := by
  induction calls generalizing writer with
  | nil => rfl
  | cons call calls ih =>
    rw [operations, List.flatMap_cons, List.foldl_append, ← serve_writer]
    exact ih _

/-- A writer is good after calls exactly if it was and none of them fails. -/
theorem good_session_iff (writer : FileWriter) (calls : List (Request × WriterFaults)) :
    (session writer calls).2.good = true ↔
      writer.good = true ∧ ∀ call ∈ calls, call.1.Succeeds call.2 := by
  rw [session_writer, good_foldl_perform_iff, operations]
  simp only [List.mem_flatMap, succeeds_iff]
  constructor
  · exact fun h => ⟨h.1, fun call hcall operation hmem => h.2 operation ⟨call, hcall, hmem⟩⟩
  · rintro ⟨hgood, h⟩
    exact ⟨hgood, fun operation ⟨call, hcall, hmem⟩ => h call hcall operation hmem⟩

/-- What is requested of the stream is what is asked. -/
theorem requested_operations (cursor : Nat) (calls : List (Request × WriterFaults)) :
    requested cursor (operations calls) = asked cursor (calls.map Prod.fst) := by
  induction calls generalizing cursor with
  | nil => rfl
  | cons call calls ih =>
    rw [operations, List.flatMap_cons, ← operations, List.map_cons]
    obtain ⟨request, faults⟩ := call
    cases request <;> simp [Request.operations, requested, asked, ih]

/-- **The answers**: a call is answered with success if it is a flush, or if nothing has failed up to and
in it. -/
theorem session_answers (writer : FileWriter) (calls : List (Request × WriterFaults)) (i : Nat) :
    (session writer calls).1[i]? = calls[i]?.map fun call =>
      if call.1 = .flush ∨ (session writer (calls.take (i + 1))).2.good = true then .ok ()
      else .error writeError := by
  induction calls generalizing writer i with
  | nil => rfl
  | cons call calls ih =>
    obtain ⟨request, faults⟩ := call
    cases i with
    | zero => simp [session, ← serve_answer]
    | succ i => exact ih (serve faults writer request).2 i

/-- A call comes before the first failure exactly if nothing fails up to and in it. -/
theorem lt_firstFailure_iff {calls : List (Request × WriterFaults)} {i : Nat} (h : i < calls.length) :
    i < firstFailure calls ↔ ∀ call ∈ calls.take (i + 1), call.1.Succeeds call.2 := by
  induction calls generalizing i with
  | nil => simp at h
  | cons call calls ih =>
    rw [firstFailure, List.findIdx_cons]
    by_cases hfirst : call.1.Succeeds call.2
    · cases i with
      | zero => simp [hfirst]
      | succ i => simpa [hfirst, firstFailure] using ih (by simpa using h)
    · simp [hfirst]

/-- Nothing fails in calls among which there is no first failure. -/
theorem forall_succeeds_of_firstFailure_eq {calls : List (Request × WriterFaults)}
    (h : firstFailure calls = calls.length) : ∀ call ∈ calls, call.1.Succeeds call.2 := by
  rw [firstFailure, List.findIdx_eq_length] at h
  exact fun call hcall => by simpa using h call hcall

/-! ### What calls leave in the file -/

/-- What calls ask to be written, call by call. A call without bytes writes nothing. -/
def pieces : (cursor : Nat) → List Request → List (Run Byte)
  | _, [] => []
  | cursor, .write data :: rest =>
    if data = [] then pieces cursor rest
    else ⟨cursor, data⟩ :: pieces (cursor + data.length) rest
  | _, .writeAt offset data :: rest =>
    if data = [] then pieces offset.toNat rest
    else ⟨offset.toNat, data⟩ :: pieces (offset.toNat + data.length) rest
  | cursor, .flush :: rest => pieces cursor rest

/-- The bytes asked for leave what the pieces do. -/
theorem foldl_write_asked (cursor : Nat) (requests : List Request) (buffer : Bytes) :
    (asked cursor requests).foldl (Run.write 0) buffer
      = (pieces cursor requests).foldl (Run.write 0) buffer := by
  induction requests generalizing cursor buffer with
  | nil => rfl
  | cons request requests ih =>
    -- both kinds of writes ask for one piece, at the cursor or at their offset
    have hpiece : ∀ (start : Nat) (data : Bytes),
        (placed start data ++ asked (start + data.length) requests).foldl (Run.write 0) buffer
          = (if data = [] then pieces start requests
              else ⟨start, data⟩ :: pieces (start + data.length) requests).foldl (Run.write 0)
                buffer := by
      intro start data
      -- an empty write leaves no piece, which would lengthen the file
      by_cases hdata : data = []
      · rw [if_pos hdata, hdata]
        exact ih start buffer
      · rw [if_neg hdata, List.foldl_append, foldl_write_placed 0 buffer start hdata, ih,
          List.foldl_cons]
    cases request with
    | write data => exact hpiece cursor data
    | writeAt offset data => exact hpiece offset.toNat data
    | flush => exact ih cursor buffer

/-- A call that is no plain write empties the buffer first. -/
theorem operations_of_not_write {request : Request} (h : ∀ data, request ≠ .write data)
    (faults : WriterFaults) :
    ∃ operation rest, request.operations faults = operation :: rest ∧ operation.drains = true := by
  cases request with
  | write data => exact absurd rfl (h data)
  | writeAt offset data => exact ⟨_, _, rfl, rfl⟩
  | flush => exact ⟨_, _, rfl, rfl⟩

/-- Behind the first failing call nothing happens to the writer. -/
theorem session_take_firstFailure (calls : List (Request × WriterFaults)) :
    (session opened calls).2 = (session opened (calls.take (firstFailure calls + 1))).2 := by
  by_cases h : firstFailure calls < calls.length
  -- the stream has failed by then, and a failed stream stays as it is
  · have hbad : ¬ (session opened (calls.take (firstFailure calls + 1))).2.good = true := by
      rw [good_session_iff]
      rintro ⟨-, hall⟩
      exact absurd ((lt_firstFailure_iff h).mpr hall) (Nat.lt_irrefl _)
    rw [session_writer] at hbad ⊢
    have hsplit : operations calls = operations (calls.take (firstFailure calls + 1))
        ++ operations (calls.drop (firstFailure calls + 1)) := by
      rw [operations, operations, operations, ← List.flatMap_append, List.take_append_drop]
    rw [hsplit, List.foldl_append, foldl_perform_of_not_good (by simpa using hbad), session_writer]
  · rw [List.take_of_length_le (by omega)]

/-- A flush asks for nothing. -/
theorem asked_append_flush (cursor : Nat) (requests : List Request) :
    asked cursor (requests ++ [.flush]) = asked cursor requests := by
  induction requests generalizing cursor with
  | nil => rfl
  | cons request requests ih => cases request <;> simp [asked, ih]

/-- A call in front of the first failure that is no plain write begins with an operation that empties
the buffer, at which the writer is still good. -/
theorem exists_drain {calls : List (Request × WriterFaults)} {k : Nat} {request : Request}
    {faults : WriterFaults} (hk : k < firstFailure calls) (hcall : calls[k]? = some (request, faults))
    (hrequest : ∀ data, request ≠ .write data) :
    ∃ operation later, operations (calls.take (firstFailure calls + 1))
        = operations (calls.take k) ++ operation :: later ∧ operation.drains = true ∧
      ((operations (calls.take k) ++ [operation]).foldl (perform 0) opened).good = true := by
  obtain ⟨hlt, -⟩ := List.getElem?_eq_some_iff.mp hcall
  have htake : calls.take (k + 1) = calls.take k ++ [(request, faults)] := by
    rw [List.take_add_one, hcall]
    rfl
  obtain ⟨tail, hsplit⟩ : calls.take (k + 1) <+: calls.take (firstFailure calls + 1) :=
    List.take_prefix_take_left (Nat.succ_le_succ (Nat.le_of_lt hk))
  obtain ⟨operation, more, hoperations, hdrains⟩ := operations_of_not_write hrequest faults
  refine ⟨operation, more ++ operations tail, ?_, hdrains, ?_⟩
  · rw [← hsplit, htake]
    simp [operations, hoperations]
  · -- all calls up to this one succeed, and with them the operations
    rw [good_foldl_perform_iff]
    refine ⟨rfl, fun other hother => ?_⟩
    obtain ⟨call, hmem, hof⟩ : ∃ call ∈ calls.take (k + 1), other ∈ call.1.operations call.2 := by
      rw [htake]
      rcases List.mem_append.mp hother with hother | hother
      · obtain ⟨call, hmem, hof⟩ := List.mem_flatMap.mp hother
        exact ⟨call, List.mem_append_left _ hmem, hof⟩
      · rw [List.mem_singleton] at hother
        exact ⟨_, List.mem_append_right _ List.mem_cons_self, by simp [hoperations, hother]⟩
    exact (succeeds_iff _ _).mp ((lt_firstFailure_iff hlt).mp hk call hmem) other hof

/-- What the file holds after calls: the first of the bytes asked for up to the first failing call, and
among them all that was asked before a call that empties the buffer and does not fail; then the bytes
still in the buffer, as far as the transfer that failed and the closing moved them. -/
theorem exists_log (calls : List (Request × WriterFaults)) (closing : Nat) :
    ∃ log start rest again,
      ((session opened calls).2.close (.positioned 0) closing).content
        = left 0 log start rest again closing ∧
      log ++ placed start rest <+: asked 0 ((calls.take (firstFailure calls + 1)).map Prod.fst) ∧
      (firstFailure calls = calls.length → again = 0) ∧
      ∀ k request faults, k < firstFailure calls → calls[k]? = some (request, faults) →
        (∀ data, request ≠ .write data) → asked 0 ((calls.take k).map Prod.fst) <+: log := by
  have hopened : Holds (0 : Byte) [] [] opened := holds_opened
  obtain ⟨log, done, -, hdone, h, hdrained⟩ :=
    hopened.foldl_perform (operations (calls.take (firstFailure calls + 1)))
  -- what comes behind the first failing call does nothing
  rw [← session_writer, ← session_take_firstFailure, List.nil_append] at h
  rw [requested_operations] at hdone
  obtain ⟨start, rest, again, hclose, haccepted, hagain⟩ := h.close closing
  refine ⟨log, start, rest, again, hclose, haccepted ▸ hdone, fun hnone => hagain ?_, ?_⟩
  · exact (good_session_iff opened calls).mpr ⟨rfl, forall_succeeds_of_firstFailure_eq hnone⟩
  · intro k request faults hk hcall hrequest
    obtain ⟨operation, later, hsplit, hdrains, hgood⟩ := exists_drain hk hcall hrequest
    have hmoved := hdrained _ _ _ hsplit hdrains hgood
    rwa [List.nil_append, requested_operations] at hmoved

/-- **What a writer promises.** Whatever fails, in any sequence of `write`, `write_at` and `flush`: the
writes before the first failing call are answered with success and those from it on with an error, and
every flush with success. When the writer is closed, the file holds what the first of the bytes asked
for leave, one after the other, and behind them bytes that were still in the buffer: those that the
failing transfer moved, which stay there, and then, from the same start, those that the closing moves.
Nothing is from a call behind the first failing one, and among the first bytes are all that were asked
for before a `flush` or `write_at` in front of the first failing call. If nothing fails, no byte is
moved twice; and if a flush follows, the file holds all pieces. -/
theorem session_keeps (calls : List (Request × WriterFaults)) (closing : Nat) :
    let run := session opened calls
    (∀ i call, calls[i]? = some call → run.1[i]? = some
        (if call.1 = .flush ∨ i < firstFailure calls then .ok () else .error writeError)) ∧
      (∃ log start rest again,
        (run.2.close (.positioned 0) closing).content = left 0 log start rest again closing ∧
        log ++ placed start rest <+: asked 0 ((calls.take (firstFailure calls + 1)).map Prod.fst) ∧
        (firstFailure calls = calls.length → again = 0) ∧
        ∀ k request faults, k < firstFailure calls → calls[k]? = some (request, faults) →
          (∀ data, request ≠ .write data) → asked 0 ((calls.take k).map Prod.fst) <+: log) ∧
      (firstFailure calls = calls.length →
        ((session opened (calls ++ [(.flush, ({} : WriterFaults))])).2.close
            (.positioned 0) closing).content
          = (pieces 0 (calls.map Prod.fst)).foldl (Run.write 0) []) := by
  refine ⟨fun i call hcall => ?_, exists_log calls closing, fun hnone => ?_⟩
  · obtain ⟨hlt, -⟩ := List.getElem?_eq_some_iff.mp hcall
    rw [session_answers, hcall, Option.map_some]
    simp only [good_session_iff, lt_firstFailure_iff hlt, show opened.good = true from rfl, true_and]
  · have hall : firstFailure (calls ++ [(.flush, ({} : WriterFaults))]) = calls.length + 1 := by
      rw [firstFailure, List.findIdx_append, ← firstFailure, hnone]
      simp [Request.Succeeds, Nat.add_comm]
    obtain ⟨log, start, rest, again, hclose, hlog, -, hkept⟩ :=
      exists_log (calls ++ [(.flush, ({} : WriterFaults))]) closing
    -- the flush has moved all that was asked before it, and nothing is asked by it
    have hmoved := hkept calls.length .flush {} (by omega) (by simp) (by simp)
    rw [List.take_left] at hmoved
    rw [List.take_of_length_le (by simp [hall]), List.map_append, List.map_singleton,
      asked_append_flush] at hlog
    -- so nothing is left in the buffer
    have hrest : rest = [] := by
      have hlength := hlog.length_le
      have hshort := hmoved.length_le
      rw [List.length_append, length_placed] at hlength
      exact List.length_eq_zero_iff.mp (by omega)
    rw [hrest, placed_nil, List.append_nil] at hlog
    rw [hclose, hrest, left, List.take_nil, List.take_nil, placed_nil, placed_nil, List.append_nil,
      List.append_nil, ← hmoved.eq_of_length_le hlog.length_le, replay, foldl_write_asked]

/-! ### Whole files -/

/-- **`write_file` is a session** of a write and a flush, if the file can be created. -/
theorem writeFile_eq_session {env : Environment} (hcreate : env.createFails = false) (path : Path)
    (data : Bytes) (world : World) :
    let faults : WriterFaults := { duringWrite := env.duringWrite, duringFlush := env.duringFlush }
    writeFile env path data world
      = (.ofExcept (write faults opened data).1,
          world.put path ((session opened [(.write data, faults), (.flush, faults)]).2.close
            (.positioned 0) env.duringClose).content) := by
  intro faults
  -- the writer's stream, seen as one that only appends
  have hopened : (opened : FileWriter) = (OutputStream.opened []).map atEnd := rfl
  have hwrite : OutputStream.write (.positioned 0) opened data env.duringWrite
      = ((OutputStream.opened []).write .appending data env.duringWrite).map atEnd := by
    rw [hopened, OutputStream.map_write (hom_atEnd 0)]
  have hflush : ∀ stream : OutputStream Byte Bytes,
      (stream.map atEnd).flush (.positioned 0) env.duringFlush
        = (stream.flush .appending env.duringFlush).map atEnd :=
    fun stream => (OutputStream.map_flush (hom_atEnd 0) stream env.duringFlush).symm
  have hclose : ∀ stream : OutputStream Byte Bytes,
      ((stream.map atEnd).close (.positioned 0) env.duringClose).content
        = stream.close .appending env.duringClose := by
    intro stream
    rw [← OutputStream.map_close (hom_atEnd 0)]
    rfl
  simp only [writeFile, createFileWriter, hcreate, BufferedFileWriter.write, BufferedFileWriter.flush,
    session, serve, write, flush, hwrite, hflush, hclose, OutputStream.good_map, faults]
  cases hgood : ((OutputStream.opened []).write .appending data env.duringWrite).good with
  | true => simp [hgood]
  | false =>
    -- there is no flush after a failed write, and none would do anything
    simp [hgood, OutputStream.flush_of_not_good hgood]

end FileWriter

end IUBPatch
