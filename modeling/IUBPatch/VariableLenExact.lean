import IUBPatch.VariableLen
import Mathlib.Algebra.BigOperators.Ring.Finset

/-! # What the number decoders compute

The bytes a decoder consumes, where it stops, and its value as a sum over places. Both decoders are
exact in this sense, and every 64-bit number has one byte string that they read as it. -/

namespace IUBPatch

/-! ### Values as sums -/

/-- The unreduced value of bytes read as one number: the payload bits of every byte at its place, and
one unit of the next place for every byte with its high bit clear. -/
def placeValue (bytes : Bytes) : Nat :=
  ∑ i ∈ Finset.range bytes.length, (bytes.getD i 0 &&& 0x7F).toNat * 128 ^ i
    + ∑ i ∈ Finset.range (bytes.countP fun byte => ¬ EndsNumber byte), 128 ^ (i + 1)

/-- A byte with its high bit set is worth its payload bits. -/
theorem placeValue_singleton {byte : Byte} (h : EndsNumber byte) :
    placeValue [byte] = lowBits byte := by
  rw [placeValue, List.countP_cons_of_neg (by simpa using h), List.countP_nil, List.length_singleton,
    Finset.sum_range_one, Finset.sum_range_zero, List.getD_cons_zero, toNat_and_lowMask, pow_zero,
    Nat.mul_one, Nat.add_zero]

/-- A byte with its high bit clear in front moves all places up by one, and adds its payload bits and
the unit of the place it moves them to. -/
theorem placeValue_cons {byte : Byte} (h : ¬ EndsNumber byte) (bytes : Bytes) :
    placeValue (byte :: bytes) = lowBits byte + 128 * (1 + placeValue bytes) := by
  have hpayload : ∑ i ∈ Finset.range (bytes.length + 1),
      ((byte :: bytes).getD i 0 &&& 0x7F).toNat * 128 ^ i
      = 128 * ∑ i ∈ Finset.range bytes.length, (bytes.getD i 0 &&& 0x7F).toNat * 128 ^ i
        + lowBits byte := by
    rw [Finset.sum_range_succ', List.getD_cons_zero, toNat_and_lowMask, pow_zero, Nat.mul_one,
      Finset.mul_sum]
    congr 1
    apply Finset.sum_congr rfl
    intro i _
    rw [List.getD_cons_succ, pow_succ]
    ring
  have hunits : ∀ m : Nat, ∑ i ∈ Finset.range (m + 1), 128 ^ (i + 1)
      = 128 * ∑ i ∈ Finset.range m, 128 ^ (i + 1) + 128 := by
    intro m
    rw [Finset.sum_range_succ', Finset.mul_sum]
    congr 1
    apply Finset.sum_congr rfl
    intro i _
    rw [pow_succ, Nat.mul_comm]
  rw [placeValue, List.countP_cons_of_pos (by simpa using h), List.length_cons, hpayload, hunits,
    placeValue]
  ring

/-- **The loop's number is the value of the bytes it consumes.** -/
theorem numberOf_eq_placeValue (unread : Bytes) :
    numberOf unread = placeValue (unread.take (numberLength unread)) := by
  induction unread with
  | nil => rfl
  | cons byte unread ih =>
    rw [numberOf, numberLength]
    by_cases hend : EndsNumber byte
    · rw [if_pos hend, if_pos hend, List.take_succ_cons, List.take_zero, placeValue_singleton hend]
    · rw [if_neg hend, if_neg hend, List.take_succ_cons, placeValue_cons hend, ih]

/-! ### Where a number ends -/

/-- The bytes are one number: the last one has its high bit set, and no other. -/
def IsNumber (bytes : Bytes) : Prop :=
  ∃ front last, bytes = front ++ [last] ∧ (∀ byte ∈ front, ¬ EndsNumber byte) ∧ EndsNumber last

/-- What the loop consumes: bytes that go on, and a last one that ends the number or the data. -/
theorem exists_last_of_take {unread : Bytes} (h : unread ≠ []) :
    ∃ front last, unread.take (numberLength unread) = front ++ [last] ∧
      (∀ byte ∈ front, ¬ EndsNumber byte) ∧
      (EndsNumber last ∨ numberLength unread = unread.length) := by
  induction unread with
  | nil => exact absurd rfl h
  | cons byte unread ih =>
    rw [numberLength]
    by_cases hend : EndsNumber byte
    · exact ⟨[], byte, by rw [if_pos hend]; rfl, by simp, .inl hend⟩
    rw [if_neg hend]
    by_cases hlast : unread = []
    · -- the data end behind a byte that goes on
      subst hlast
      exact ⟨[], byte, rfl, by simp, .inr rfl⟩
    · obtain ⟨front, last, htake, hfront, hends⟩ := ih hlast
      refine ⟨byte :: front, last, ?_, ?_, ?_⟩
      · rw [List.take_succ_cons, htake, List.cons_append]
      · intro b hb
        rcases List.mem_cons.mp hb with rfl | hb
        · exact hend
        · exact hfront b hb
      · rw [List.length_cons, Nat.add_right_cancel_iff]
        exact hends

/-- The bytes of a number are consumed up to the last one, whatever follows. -/
theorem IsNumber.numberLength_append {bytes : Bytes} (h : IsNumber bytes) (rest : Bytes) :
    numberLength (bytes ++ rest) = bytes.length := by
  obtain ⟨front, last, rfl, hfront, hlast⟩ := h
  induction front with
  | nil => rw [List.nil_append, List.singleton_append, numberLength, if_pos hlast]; rfl
  | cons byte front ih =>
    have hbyte : ¬ EndsNumber byte := hfront byte (by simp)
    rw [List.cons_append, List.cons_append, numberLength, if_neg hbyte,
      ih fun b hb => hfront b (List.mem_cons_of_mem byte hb)]
    rfl

/-- The encoding of a number is one number. -/
theorem isNumber_encodeNum (n : Nat) : IsNumber (encodeNum n) := by
  have hlength : numberLength (encodeNum n) = (encodeNum n).length := by
    have := numberLength_encodeNum_append n []
    rwa [List.append_nil] at this
  obtain ⟨front, last, htake, hfront, -⟩ :=
    exists_last_of_take (List.ne_nil_of_length_pos (length_encodeNum_pos n))
  obtain ⟨front', last', hlast, hbytes⟩ := exists_last_encodeNum n
  rw [hlength, List.take_length] at htake
  have hsame : last = last' := by
    have := htake.symm.trans hbytes
    simpa using (List.append_inj' this rfl).2
  exact ⟨front, last, htake, hfront, hsame ▸ hlast⟩

/-- The bytes of one number are worth the number they begin with. -/
theorem IsNumber.numberOf_eq {bytes : Bytes} (h : IsNumber bytes) :
    numberOf bytes = placeValue bytes := by
  have hlength := h.numberLength_append []
  rw [List.append_nil] at hlength
  rw [numberOf_eq_placeValue, hlength, List.take_length]

/-- **Uniqueness**: bytes that are one number are the encoding of its value. -/
theorem IsNumber.eq_encodeNum {bytes : Bytes} (h : IsNumber bytes) :
    bytes = encodeNum (placeValue bytes) := by
  obtain ⟨front, last, hbytes, -, hlast⟩ := id h
  have hmem : last ∈ bytes := by rw [hbytes]; simp
  obtain ⟨rest, hrest⟩ := exists_encodeNum_append ⟨last, hmem, hlast⟩
  have hall := h.numberLength_append []
  rw [List.append_nil, hrest, numberLength_encodeNum_append, List.length_append] at hall
  have hnone : rest = [] := List.length_eq_zero_iff.mp (by omega)
  rw [hnone, List.append_nil, h.numberOf_eq] at hrest
  exact hrest

/-! ### Exact decoders -/

/-- What a decoder of variable-length numbers has to do. -/
structure ExactDecoder (decode : Bytes → Nat → UInt64 × Nat) : Prop where
  /-- It consumes at least one byte and stays within the data. -/
  moves : ∀ (data : Bytes) (offset : Nat), offset < data.length →
    offset < (decode data offset).2 ∧ (decode data offset).2 ≤ data.length
  /-- It stops behind the first byte with its high bit set, or at the end of the data. -/
  stops : ∀ (data : Bytes) (offset : Nat), offset < data.length → ∃ front last,
    slice data offset ((decode data offset).2 - offset) = front ++ [last] ∧
      (∀ byte ∈ front, ¬ EndsNumber byte) ∧
      (EndsNumber last ∨ (decode data offset).2 = data.length)
  /-- It returns the value of the bytes it consumed, reduced to 64 bits. -/
  value : ∀ (data : Bytes) (offset : Nat), offset < data.length →
    (decode data offset).1.toNat
      = placeValue (slice data offset ((decode data offset).2 - offset)) % 2 ^ 64
  /-- Every 64-bit number has one byte string, and is read back from it wherever it stands. -/
  bytes : ∀ n : UInt64, ∃ e : Bytes, (IsNumber e ∧ placeValue e = n.toNat) ∧
    (∀ e', IsNumber e' ∧ placeValue e' = n.toNat → e' = e) ∧
    ∀ before after : Bytes,
      decode (before ++ (e ++ after)) before.length = (n, before.length + e.length)

/-- `decode_bps_num` is exact. -/
theorem exactDecoder_decodeBpsNum : ExactDecoder decodeBpsNum where
  moves data offset h := by
    have hlt := lt_decodeBpsNum h
    rw [decodeBpsNum_snd] at hlt ⊢
    exact ⟨hlt, numberEnd_le (Nat.le_of_lt h)⟩
  stops data offset h := by
    have hne : data.drop offset ≠ [] := mt List.drop_eq_nil_iff.mp (Nat.not_le.mpr h)
    obtain ⟨front, last, htake, hfront, hends⟩ := exists_last_of_take hne
    rw [decodeBpsNum_snd, numberEnd, Nat.add_sub_cancel_left]
    refine ⟨front, last, htake, hfront, hends.imp_right fun hall => ?_⟩
    rw [hall, List.length_drop]
    omega
  value data offset _ := by
    rw [toNat_decodeBpsNum_fst, decodeBpsNum_snd, numberEnd, Nat.add_sub_cancel_left,
      numberOf_eq_placeValue, slice]
  bytes n := by
    refine ⟨encodeNum n.toNat, ⟨isNumber_encodeNum n.toNat, ?_⟩, ?_, ?_⟩
    · rw [← (isNumber_encodeNum n.toNat).numberOf_eq]
      have := numberOf_encodeNum_append n.toNat []
      rwa [List.append_nil] at this
    · rintro e ⟨he, hvalue⟩
      rw [he.eq_encodeNum, hvalue]
    · intro before after
      rw [decodeBpsNum_of_drop List.drop_left, UInt64.ofNat_toNat]

/-- **Both number decoders are exact**: each consumes the bytes of one number, returns their value
reduced to 64 bits, and reads every 64-bit number back from the one byte string it has. -/
theorem exactDecoders : ExactDecoder decodeBpsNum ∧ ExactDecoder decodeVariableLen :=
  ⟨exactDecoder_decodeBpsNum, decodeVariableLen_eq_decodeBpsNum ▸ exactDecoder_decodeBpsNum⟩

/-- A number that the end of the data cuts: both bytes go on, and both units are added. -/
example : decodeBpsNum [0x01, 0x02] 0 = (1 + 2 * 128 + 128 + 128 ^ 2, 2) := by decide

end IUBPatch
