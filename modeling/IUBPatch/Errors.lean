import IUBPatch.Lib.Outcome

/-! # Error codes, results and exceptions

The error side of the library interface: `ErrorCode` and `ErrorInfo`, the `Result<T>` every
operation returns, and the standard-library exceptions that can leave an operation instead. -/

namespace IUBPatch

/-- `enum class ErrorCode`. -/
inductive ErrorCode where
  | success
  | fileNotFound
  | fileReadError
  | fileWriteError
  | fileAccessDenied
  | fileTooLarge
  | invalidPatchFormat
  | unsupportedPatchVersion
  | corruptedPatchData
  | invalidPatchHeader
  | invalidSourceFile
  | sourceSizeMismatch
  | checksumMismatch
  | invalidPatchOffset
  | patchTooLarge
  | outOfMemory
  | mmapFailed
  | invalidArgument
  | unknownError
  deriving DecidableEq, Repr

/-- `struct ErrorInfo`: a code with a message and an optional context. -/
structure ErrorInfo where
  code : ErrorCode
  message : String := ""
  context : String := ""
  deriving DecidableEq, Repr

/-- `Result<T>`: what an operation no exception can leave comes back with. -/
abbrev Result (α : Type) := Except ErrorInfo α

/-- A result is an error or a value. -/
theorem exists_error_iff {α : Type} {result : Result α} :
    (∃ e, result = .error e) ↔ ¬ ∃ a, result = .ok a := by
  cases result <;> simp

/-- What comes back behind a check has passed it. -/
theorem ite_eq_ok_iff {α : Type} {check : Prop} [Decidable check] {a b : α} {e : ErrorInfo} :
    (if check then .ok a else .error e : Result α) = .ok b ↔ check ∧ a = b := by
  by_cases h : check <;> simp [h]

/-- The exceptions of the standard library that the operations can raise. -/
inductive StdException where
  /-- `std::length_error`, from a container asked to grow past its `max_size`. -/
  | lengthError
  /-- `std::filesystem::filesystem_error` with its `what()`. -/
  | filesystemError (what : String)
  deriving DecidableEq, Repr

/-- An operation declared to return `Result<T>` that an exception may leave instead. -/
abbrev Call (α : Type) := Outcome ErrorInfo StdException α

end IUBPatch
