import Mathlib.Data.List.Basic
import Mathlib.Tactic.Ring

/-! # Bijective variable-length numbers

Little-endian digit strings in base `B` in which every digit but the last is followed by another
one, and each continuation adds the weight of the next place once more. So `value` of a string
`d₀ … dₘ` is `Σ dᵢ·Bⁱ + Σ_{1 ≤ i ≤ m} Bⁱ`, and every number has exactly one non-empty string: there
are no leading zeros to pad with. -/

namespace BijectiveBase

/-- The number a digit string stands for; a continuation costs one unit of the next place. -/
def value (B : Nat) : List Nat → Nat
  | [] => 0
  | [d] => d
  | d :: ds => d + B * (1 + value B ds)

/-- The digit string of a number. -/
def digits (B : Nat) [NeZero B] (n : Nat) : List Nat :=
  if n < B then [n] else n % B :: digits B (n / B - 1)
termination_by n
decreasing_by
  have hB := NeZero.pos B
  have hle := Nat.div_le_self n B
  omega

variable {B : Nat}

@[simp] theorem value_singleton (d : Nat) : value B [d] = d := rfl

theorem value_cons {d : Nat} {ds : List Nat} (hds : ds ≠ []) :
    value B (d :: ds) = d + B * (1 + value B ds) := by
  cases ds with
  | nil => exact absurd rfl hds
  | cons => rfl

variable [NeZero B]

theorem digits_of_lt {n : Nat} (h : n < B) : digits B n = [n] := by
  rw [digits, if_pos h]

theorem digits_of_le {n : Nat} (h : B ≤ n) :
    digits B n = n % B :: digits B (n / B - 1) := by
  rw [digits, if_neg (Nat.not_lt.mpr h)]

theorem digits_ne_nil (n : Nat) : digits B n ≠ [] := by
  rw [digits]; split <;> simp

/-- Every digit is below the base. -/
theorem lt_of_mem_digits {n d : Nat} (h : d ∈ digits B n) : d < B := by
  induction n using digits.induct B with
  | case1 n hn =>
    rw [digits_of_lt hn, List.mem_singleton] at h
    exact h ▸ hn
  | case2 n hn ih =>
    rw [digits_of_le (Nat.not_lt.mp hn), List.mem_cons] at h
    rcases h with rfl | h
    · exact Nat.mod_lt n (NeZero.pos B)
    · exact ih h

/-- A number below a power of the base has no more digits than the power. -/
theorem length_digits_le {n k : Nat} (h : n < B ^ (k + 1)) : (digits B n).length ≤ k + 1 := by
  induction k generalizing n with
  | zero =>
    rw [Nat.pow_one] at h
    rw [digits_of_lt h, List.length_singleton]
  | succ k ih =>
    by_cases hlt : n < B
    · rw [digits_of_lt hlt, List.length_singleton]
      omega
    · have hdiv : n / B < B ^ (k + 1) := by
        rw [Nat.pow_succ] at h
        exact Nat.div_lt_of_lt_mul (by rwa [Nat.mul_comm] at h)
      rw [digits_of_le (Nat.not_lt.mp hlt), List.length_cons]
      exact Nat.succ_le_succ (ih (Nat.lt_of_le_of_lt (Nat.sub_le _ _) hdiv))

/-- **Exactness**: the digit string of `n` stands for `n`. -/
@[simp] theorem value_digits (n : Nat) : value B (digits B n) = n := by
  induction n using digits.induct B with
  | case1 n hn => rw [digits_of_lt hn, value_singleton]
  | case2 n hn ih =>
    have hle : B ≤ n := Nat.not_lt.mp hn
    have hq : 1 ≤ n / B := (Nat.one_le_div_iff (NeZero.pos B)).mpr hle
    have hcarry : 1 + (n / B - 1) = n / B := by omega
    rw [digits_of_le hle, value_cons (digits_ne_nil _), ih, hcarry, Nat.mod_add_div]

/-- **Uniqueness**: a non-empty digit string is the digit string of the number it stands for. -/
theorem digits_value {ds : List Nat} (hne : ds ≠ []) (hlt : ∀ d ∈ ds, d < B) :
    digits B (value B ds) = ds := by
  induction ds with
  | nil => exact absurd rfl hne
  | cons d ds ih =>
    have hd : d < B := hlt d (by simp)
    cases ds with
    | nil => rw [value_singleton, digits_of_lt hd]
    | cons e es =>
      have htail := ih (by simp) (fun x hx => hlt x (by simp [hx]))
      rw [value_cons (by simp)]
      set v := value B (e :: es) with hv
      have hge : B ≤ d + B * (1 + v) :=
        le_add_left (Nat.le_mul_of_pos_right B (by omega))
      have hmod : (d + B * (1 + v)) % B = d := by
        rw [Nat.add_mul_mod_self_left, Nat.mod_eq_of_lt hd]
      have hdiv : (d + B * (1 + v)) / B = 1 + v := by
        rw [Nat.add_mul_div_left _ _ (NeZero.pos B), Nat.div_eq_of_lt hd, Nat.zero_add]
      rw [digits_of_le hge, hmod, hdiv, Nat.add_sub_cancel_left, htail]

end BijectiveBase
