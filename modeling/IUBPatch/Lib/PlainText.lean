import Mathlib.Data.List.Basic
import Mathlib.Tactic.Common

/-! # Plain text

Lines and numerals: what has been printed as lines, or as a number with leading zeros or without, can be
read back. -/

namespace PlainText

/-! ### Lines -/

section Lines

variable {α : Type*} (stop : α)

/-- Lines one after the other, each with a stop behind it. -/
def terminated (lines : List (List α)) : List α := lines.flatMap (· ++ [stop])

theorem terminated_cons (line : List α) (lines : List (List α)) :
    terminated stop (line :: lines) = line ++ stop :: terminated stop lines := by
  rw [terminated, List.flatMap_cons, List.append_assoc]
  rfl

theorem terminated_append (lines lines' : List (List α)) :
    terminated stop (lines ++ lines') = terminated stop lines ++ terminated stop lines' :=
  List.flatMap_append

variable {stop}

/-- The first stop ends the first line. -/
theorem eq_of_append_stop_eq {line line' rest rest' : List α} (hline : stop ∉ line)
    (hline' : stop ∉ line') (h : line ++ stop :: rest = line' ++ stop :: rest') :
    line = line' ∧ rest = rest' := by
  -- one line reaches as far as the other or further; then it would hold the other's stop
  rcases List.append_eq_append_iff.mp h with ⟨more, rfl, hmore⟩ | ⟨more, rfl, hmore⟩
  · cases more with
    | nil => simpa using hmore
    | cons c more =>
      rw [List.cons_append, List.cons.injEq] at hmore
      exact absurd (List.mem_append_right line (hmore.1 ▸ List.mem_cons_self)) hline'
  · cases more with
    | nil => simpa using hmore.symm
    | cons c more =>
      rw [List.cons_append, List.cons.injEq] at hmore
      exact absurd (List.mem_append_right line' (hmore.1 ▸ List.mem_cons_self)) hline

/-- **Lines can be told apart**: a text is made of lines without stops in one way. -/
theorem eq_of_terminated_eq {lines lines' : List (List α)} (hlines : ∀ line ∈ lines, stop ∉ line)
    (hlines' : ∀ line ∈ lines', stop ∉ line)
    (h : terminated stop lines = terminated stop lines') : lines = lines' := by
  induction lines generalizing lines' with
  | nil =>
    cases lines' with
    | nil => rfl
    | cons line' lines' =>
      rw [terminated_cons] at h
      exact absurd h.symm (List.append_ne_nil_of_right_ne_nil _ (List.cons_ne_nil _ _))
  | cons line lines ih =>
    cases lines' with
    | nil =>
      rw [terminated_cons] at h
      exact absurd h (List.append_ne_nil_of_right_ne_nil _ (List.cons_ne_nil _ _))
    | cons line' lines' =>
      obtain ⟨hfirst, hmore⟩ := List.forall_mem_cons.mp hlines
      obtain ⟨hfirst', hmore'⟩ := List.forall_mem_cons.mp hlines'
      rw [terminated_cons, terminated_cons] at h
      obtain ⟨rfl, hrest⟩ := eq_of_append_stop_eq hfirst hfirst' h
      rw [ih hmore hmore' hrest]

end Lines

/-! ### Numerals -/

/-- The value of a digit, up to base sixteen. -/
def digitValue (c : Char) : Nat := if c.isDigit then c.toNat - '0'.toNat else c.toNat - 'a'.toNat + 10

theorem digitValue_digitChar {d : Nat} (h : d < 16) : digitValue d.digitChar = d := by
  have hall : ∀ d < 16, digitValue d.digitChar = d := by decide
  exact hall d h

/-- The value of a numeral. -/
def value (b : Nat) (digits : List Char) : Nat :=
  digits.foldl (fun n c => n * b + digitValue c) 0

/-- A digit at the end of a numeral. -/
theorem value_append_singleton (b : Nat) (digits : List Char) (c : Char) :
    value b (digits ++ [c]) = value b digits * b + digitValue c := by
  rw [value, List.foldl_append]
  rfl

/-- Leading zeros change nothing. -/
theorem value_zeros_append (b k : Nat) (digits : List Char) :
    value b (List.replicate k '0' ++ digits) = value b digits := by
  have hzeros : (List.replicate k '0').foldl (fun n c => n * b + digitValue c) 0 = 0 := by
    induction k with
    | zero => rfl
    | succ k ih => rw [List.replicate_succ, List.foldl_cons, Nat.zero_mul]; exact ih
  rw [value, List.foldl_append, hzeros, value]

section Base

variable {b : Nat} (hb : 1 < b) (hsmall : b ≤ 16)

include hb hsmall

/-- **A numeral has the value it was made for.** -/
theorem value_toDigits (n : Nat) : value b (Nat.toDigits b n) = n := by
  induction n using Nat.strongRecOn with
  | _ n ih =>
    rw [Nat.toDigits_eq_if hb]
    split
    · rename_i hlt
      rw [value, List.foldl_cons, List.foldl_nil, Nat.zero_mul, Nat.zero_add,
        digitValue_digitChar (by omega)]
    · rename_i hle
      have hdigit : n % b < 16 := Nat.lt_of_lt_of_le (Nat.mod_lt n (by omega)) hsmall
      -- the last digit is the remainder, the digits before it are those of the quotient
      rw [value_append_singleton, ih (n / b) (Nat.div_lt_self (by omega) hb),
        digitValue_digitChar hdigit]
      exact Nat.div_add_mod' n b

/-- The digits of a numeral are digits. -/
theorem exists_digitChar_of_mem {n : Nat} {c : Char} (h : c ∈ Nat.toDigits b n) :
    ∃ d < 16, c = d.digitChar := by
  induction n using Nat.strongRecOn with
  | _ n ih =>
    rw [Nat.toDigits_eq_if hb] at h
    split at h
    · rename_i hlt
      exact ⟨n, by omega, List.mem_singleton.mp h⟩
    · rename_i hle
      rcases List.mem_append.mp h with hfront | hlast
      · exact ih (n / b) (Nat.div_lt_self (by omega) hb) hfront
      · have hdigit : n % b < 16 := Nat.lt_of_lt_of_le (Nat.mod_lt n (by omega)) hsmall
        exact ⟨n % b, hdigit, List.mem_singleton.mp hlast⟩

end Base

/-- A numeral with zeros in front up to a width. -/
def padded (width b n : Nat) : List Char :=
  List.replicate (width - (Nat.toDigits b n).length) '0' ++ Nat.toDigits b n

@[simp] theorem padded_zero (b n : Nat) : padded 0 b n = Nat.toDigits b n := by
  rw [padded, Nat.zero_sub, List.replicate_zero, List.nil_append]

/-- **Numerals can be read back**, leading zeros or not. -/
theorem padded_injective {b : Nat} (hb : 1 < b) (hsmall : b ≤ 16) (width : Nat) :
    Function.Injective (padded width b) := by
  intro n n' h
  have hvalue := congrArg (value b) h
  rwa [padded, padded, value_zeros_append, value_zeros_append, value_toDigits hb hsmall,
    value_toDigits hb hsmall] at hvalue

/-- There is no line break in a numeral. -/
theorem newline_notMem_padded {b : Nat} (hb : 1 < b) (hsmall : b ≤ 16) (width n : Nat) :
    '\n' ∉ padded width b n := by
  have hdigits : ∀ d < 16, '\n' ≠ d.digitChar := by decide
  intro h
  rcases List.mem_append.mp h with hzero | hdigit
  · exact absurd (List.eq_of_mem_replicate hzero) (by decide)
  · obtain ⟨d, hd, heq⟩ := exists_digitChar_of_mem hb hsmall hdigit
    exact hdigits d hd heq

end PlainText
