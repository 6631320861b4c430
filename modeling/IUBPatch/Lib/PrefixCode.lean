import Mathlib.Data.List.Basic
import Mathlib.Tactic.Common

/-! # Prefix codes

A code is prefix-free if no word of it begins another one. Where one word ends is then settled by the
text, so two ways to read a text as words followed by something else differ only in where they stop. -/

namespace PrefixCode

variable {α β : Type}

/-- No word of the code is a proper prefix of another one. -/
def PrefixFree (encode : α → List β) : Prop := ∀ a b, encode a <+: encode b → encode a = encode b

variable {encode : α → List β}

/-- One text does not begin with two different words. -/
theorem PrefixFree.eq_of_append (hfree : PrefixFree encode) {a b : α} {x y : List β}
    (h : encode a ++ x = encode b ++ y) : encode a = encode b ∧ x = y := by
  have ha : encode a <+: encode b ++ y := ⟨x, h⟩
  have hb : encode b <+: encode b ++ y := List.prefix_append _ _
  have hword : encode a = encode b := by
    rcases List.prefix_or_prefix_of_prefix ha hb with hab | hba
    · exact hfree a b hab
    · exact (hfree b a hba).symm
  rw [hword] at h
  exact ⟨hword, List.append_cancel_left h⟩

/-- **Two readings of one text**: words up to a rest that begins with none of the words of the other
reading include all of those. -/
theorem PrefixFree.exists_take_of_append (hfree : PrefixFree encode) {as bs : List α} {x y : List β}
    (h : as.flatMap encode ++ x = bs.flatMap encode ++ y)
    (hstop : ∀ a ∈ as, ∀ z, y ≠ encode a ++ z) :
    ∃ n ≤ bs.length, as.flatMap encode = (bs.take n).flatMap encode ∧
      x = (bs.drop n).flatMap encode ++ y := by
  induction as generalizing bs with
  | nil => exact ⟨0, Nat.zero_le _, rfl, h⟩
  | cons a as ih =>
    rw [List.flatMap_cons, List.append_assoc] at h
    cases bs with
    | nil => exact absurd h.symm (hstop a (by simp) _)
    | cons b bs =>
      rw [List.flatMap_cons, List.append_assoc] at h
      obtain ⟨hword, hrest⟩ := hfree.eq_of_append h
      obtain ⟨n, hn, htake, hdrop⟩ := ih hrest fun a' ha' => hstop a' (List.mem_cons_of_mem a ha')
      refine ⟨n + 1, Nat.succ_le_succ hn, ?_, hdrop⟩
      rw [List.take_succ_cons, List.flatMap_cons, List.flatMap_cons, hword, htake]

end PrefixCode
