import IUBPatch.Bytes
import IUBPatch.Lib.BijectiveBase

/-! # Variable-length numbers

`decode_bps_num` and `decode_variable_len` are one loop over the unread bytes. Its meaning is
`numberOf`, the bijective base-128 value of the bytes up to the first one with its high bit set, and
`encodeNum` writes the one byte string with a given value. -/

namespace IUBPatch

/-- The `while` loop of both decoders, over the bytes from `offset` on. -/
def decodeLoop : Bytes → (value shift : UInt64) → (offset : Nat) → UInt64 × Nat
  | [], value, _, offset => (value, offset)
  | byte :: unread, value, shift, offset =>
    let value := value + (byte &&& 0x7F).toUInt64 * shift
    if byte &&& 0x80 ≠ 0 then (value, offset + 1)
    else
      let shift := shift <<< 7
      decodeLoop unread (value + shift) shift (offset + 1)

/-- `decode_bps_num`: the number at `offset`, and the offset after it. -/
def decodeBpsNum (data : Bytes) (offset : Nat) : UInt64 × Nat :=
  decodeLoop (data.drop offset) 0 1 offset

/-- `decode_variable_len`: the number at `offset`, and the offset after it. -/
def decodeVariableLen (data : Bytes) (offset : Nat) : UInt64 × Nat :=
  decodeLoop (data.drop offset) 0 1 offset

/-! ### What the loop computes -/

/-- The seven payload bits of a byte. -/
def lowBits (byte : Byte) : Nat := byte.toNat % 128

theorem lowBits_lt (byte : Byte) : lowBits byte < 128 := Nat.mod_lt _ (by decide)

/-- The byte ends a number. -/
def EndsNumber (byte : Byte) : Prop := 128 ≤ byte.toNat

instance (byte : Byte) : Decidable (EndsNumber byte) := inferInstanceAs (Decidable (128 ≤ byte.toNat))

/-- The unreduced value of the number the bytes begin with. -/
def numberOf : Bytes → Nat
  | [] => 0
  | byte :: unread =>
    if EndsNumber byte then lowBits byte else lowBits byte + 128 * (1 + numberOf unread)

/-- How many bytes the number the bytes begin with takes up. -/
def numberLength : Bytes → Nat
  | [] => 0
  | byte :: unread => if EndsNumber byte then 1 else numberLength unread + 1

/-- The mask `0x7F` keeps the payload bits. -/
theorem toNat_and_lowMask (byte : Byte) : (byte &&& 0x7F).toNat = lowBits byte := by
  rw [UInt8.toNat_and, lowBits]
  exact Nat.and_two_pow_sub_one_eq_mod byte.toNat 7

/-- The test of the mask `0x80` is the test of the high bit. -/
theorem and_highMask_ne_zero_iff (byte : Byte) : byte &&& 0x80 ≠ 0 ↔ EndsNumber byte := by
  have table : ∀ n < 256, n &&& 128 ≠ 0 ↔ 128 ≤ n := by decide +kernel
  rw [EndsNumber, ← table byte.toNat byte.toNat_lt, ne_eq, ← UInt8.toNat_inj, UInt8.toNat_and]
  rfl

/-- Shifting left by seven bits multiplies by 128. -/
theorem shiftLeft_seven (n : UInt64) : n <<< 7 = n * 128 := by
  apply UInt64.toNat_inj.mp
  rw [UInt64.toNat_shiftLeft, UInt64.toNat_mul, Nat.shiftLeft_eq]
  rfl

/-- The loop adds the value of the number, at the place `shift` has reached, in 64 bits. -/
theorem decodeLoop_eq (unread : Bytes) (value shift : UInt64) (offset : Nat) :
    decodeLoop unread value shift offset
      = (value + shift * UInt64.ofNat (numberOf unread), offset + numberLength unread) := by
  induction unread generalizing value shift offset with
  | nil => simp [decodeLoop, numberOf, numberLength]
  | cons byte unread ih =>
    have hlow : (byte &&& 0x7F).toUInt64 = UInt64.ofNat (lowBits byte) := by
      rw [← toNat_and_lowMask]; simp
    rw [decodeLoop, numberOf, numberLength]
    by_cases hend : EndsNumber byte
    · rw [if_pos ((and_highMask_ne_zero_iff byte).mpr hend), if_pos hend, if_pos hend, hlow,
        UInt64.mul_comm]
    -- the loop goes on: one unit of the next place is added with the shift
    · rw [if_neg (mt (and_highMask_ne_zero_iff byte).mp hend), if_neg hend, if_neg hend, ih, hlow,
        shiftLeft_seven]
      ext1
      · simp only [UInt64.ofNat_add, UInt64.ofNat_mul]
        grind
      · simp only; omega

theorem decodeBpsNum_eq (data : Bytes) (offset : Nat) :
    decodeBpsNum data offset
      = (UInt64.ofNat (numberOf (data.drop offset)), offset + numberLength (data.drop offset)) := by
  rw [decodeBpsNum, decodeLoop_eq]; simp

/-- The two decoders are the same function. -/
theorem decodeVariableLen_eq_decodeBpsNum : decodeVariableLen = decodeBpsNum := rfl

theorem numberLength_pos {unread : Bytes} (h : unread ≠ []) : 0 < numberLength unread := by
  cases unread with
  | nil => exact absurd rfl h
  | cons byte unread => rw [numberLength]; split <;> omega

theorem numberLength_le (unread : Bytes) : numberLength unread ≤ unread.length := by
  induction unread with
  | nil => rfl
  | cons byte unread ih => rw [numberLength, List.length_cons]; split <;> omega

/-- A decoder that has bytes left moves on. -/
theorem lt_decodeBpsNum {data : Bytes} {offset : Nat} (h : offset < data.length) :
    offset < (decodeBpsNum data offset).2 := by
  have hpos := numberLength_pos (mt List.drop_eq_nil_iff.mp (Nat.not_le.mpr h))
  rw [decodeBpsNum_eq]
  simp only
  omega

/-- No decoder moves back. -/
theorem le_decodeBpsNum (data : Bytes) (offset : Nat) : offset ≤ (decodeBpsNum data offset).2 := by
  rw [decodeBpsNum_eq]; simp

/-- Where the number that the bytes at an offset begin with ends. -/
def numberEnd (data : Bytes) (offset : Nat) : Nat := offset + numberLength (data.drop offset)

theorem decodeBpsNum_snd (data : Bytes) (offset : Nat) :
    (decodeBpsNum data offset).2 = numberEnd data offset := by
  rw [decodeBpsNum_eq, numberEnd]

theorem toNat_decodeBpsNum_fst (data : Bytes) (offset : Nat) :
    (decodeBpsNum data offset).1.toNat = numberOf (data.drop offset) % 2 ^ 64 := by
  rw [decodeBpsNum_eq, UInt64.toNat_ofNat']

/-- A number ends within the data. -/
theorem numberEnd_le {data : Bytes} {offset : Nat} (h : offset ≤ data.length) :
    numberEnd data offset ≤ data.length := by
  have hle := numberLength_le (data.drop offset)
  rw [List.length_drop] at hle
  rw [numberEnd]
  omega

/-! ### The encoding -/

/-- The bytes of a digit string: the high bit marks the last one. -/
def markLast : List Nat → Bytes
  | [] => []
  | [d] => [UInt8.ofNat (d + 128)]
  | d :: ds => UInt8.ofNat d :: markLast ds

/-- The bytes of the number `n`. -/
def encodeNum (n : Nat) : Bytes := markLast (BijectiveBase.digits 128 n)

theorem markLast_cons {d : Nat} {ds : List Nat} (hds : ds ≠ []) :
    markLast (d :: ds) = UInt8.ofNat d :: markLast ds := by
  cases ds with
  | nil => exact absurd rfl hds
  | cons => rfl

@[simp] theorem length_markLast (ds : List Nat) : (markLast ds).length = ds.length := by
  induction ds with
  | nil => rfl
  | cons d ds ih =>
    by_cases hds : ds = []
    · rw [hds]; rfl
    · rw [markLast_cons hds, List.length_cons, ih, List.length_cons]

theorem endsNumber_ofNat_iff {n : Nat} (h : n < 256) : EndsNumber (UInt8.ofNat n) ↔ 128 ≤ n := by
  rw [EndsNumber, UInt8.toNat_ofNat', Nat.mod_eq_of_lt h]

theorem lowBits_ofNat {n : Nat} (h : n < 256) : lowBits (UInt8.ofNat n) = n % 128 := by
  rw [lowBits, UInt8.toNat_ofNat', Nat.mod_eq_of_lt h]

/-- The number a marked digit string begins with is its bijective value, and takes up all of it,
whatever follows. -/
theorem number_markLast_append {ds : List Nat} (hne : ds ≠ []) (hlt : ∀ d ∈ ds, d < 128)
    (rest : Bytes) : numberOf (markLast ds ++ rest) = BijectiveBase.value 128 ds ∧
      numberLength (markLast ds ++ rest) = ds.length := by
  induction ds with
  | nil => exact absurd rfl hne
  | cons d ds ih =>
    have hd : d < 128 := hlt d (by simp)
    by_cases hds : ds = []
    · -- the last digit: its byte carries the high bit and ends the number
      have hend : EndsNumber (UInt8.ofNat (d + 128)) :=
        (endsNumber_ofNat_iff (by omega)).mpr (by omega)
      have hdigit : lowBits (UInt8.ofNat (d + 128)) = d := by
        rw [lowBits_ofNat (by omega)]; omega
      subst hds
      rw [markLast, List.cons_append, numberOf, numberLength, if_pos hend, if_pos hend, hdigit]
      exact ⟨rfl, rfl⟩
    -- a digit before the last: its byte leaves the high bit clear
    · have hcont : ¬ EndsNumber (UInt8.ofNat d) :=
        mt (endsNumber_ofNat_iff (by omega)).mp (by omega)
      obtain ⟨hvalue, hlength⟩ := ih hds (fun x hx => hlt x (List.mem_cons_of_mem d hx))
      have hdigit : lowBits (UInt8.ofNat d) = d := by
        rw [lowBits_ofNat (by omega), Nat.mod_eq_of_lt hd]
      rw [markLast_cons hds, List.cons_append, numberOf, numberLength, if_neg hcont, if_neg hcont,
        hvalue, hlength, hdigit, BijectiveBase.value_cons hds]
      exact ⟨rfl, rfl⟩

/-- The bytes of `n` begin with the number `n`. -/
theorem numberOf_encodeNum_append (n : Nat) (rest : Bytes) :
    numberOf (encodeNum n ++ rest) = n := by
  rw [encodeNum, (number_markLast_append (BijectiveBase.digits_ne_nil n)
    (fun d => BijectiveBase.lt_of_mem_digits) rest).1, BijectiveBase.value_digits]

theorem numberLength_encodeNum_append (n : Nat) (rest : Bytes) :
    numberLength (encodeNum n ++ rest) = (encodeNum n).length := by
  rw [encodeNum, (number_markLast_append (BijectiveBase.digits_ne_nil n)
    (fun d => BijectiveBase.lt_of_mem_digits) rest).2, length_markLast]

theorem length_encodeNum_pos (n : Nat) : 0 < (encodeNum n).length := by
  rw [encodeNum, length_markLast]
  exact List.length_pos_iff.mpr (BijectiveBase.digits_ne_nil n)

/-- The encoding of a 64-bit number has ten bytes at most. -/
theorem length_encodeNum_le {n : Nat} (h : n < 2 ^ 64) : (encodeNum n).length ≤ 10 := by
  have hpow : (2 : Nat) ^ 64 ≤ 128 ^ (9 + 1) := by decide
  rw [encodeNum, length_markLast]
  exact BijectiveBase.length_digits_le (Nat.lt_of_lt_of_le h hpow)

/-- **Decoding undoes encoding**: where the bytes of `n` stand, the decoder reads `n` and stops right
behind them. -/
theorem decodeBpsNum_of_drop {data rest : Bytes} {offset n : Nat}
    (h : data.drop offset = encodeNum n ++ rest) :
    decodeBpsNum data offset = (UInt64.ofNat n, offset + (encodeNum n).length) := by
  rw [decodeBpsNum_eq, h, numberOf_encodeNum_append, numberLength_encodeNum_append]

/-- Right behind them stands what follows them. -/
theorem drop_decodeBpsNum_snd {data rest : Bytes} {offset n : Nat}
    (h : data.drop offset = encodeNum n ++ rest) : data.drop (decodeBpsNum data offset).2 = rest := by
  rw [decodeBpsNum_of_drop h]
  exact drop_add_of_drop h

/-! ### Well-formed numbers -/

/-- The number decoded at `offset` is well formed: its bytes close with one that has the high bit set,
they lie before `limit`, and the decoded word is their value, not reduced. -/
structure WellFormedNumber (data : Bytes) (limit offset : Nat) : Prop where
  closed : ∃ front last, EndsNumber last ∧
    slice data offset ((decodeBpsNum data offset).2 - offset) = front ++ [last]
  before : (decodeBpsNum data offset).2 ≤ limit
  exactly : (decodeBpsNum data offset).1.toNat = numberOf (data.drop offset)

theorem encodeNum_of_lt {n : Nat} (h : n < 128) : encodeNum n = [UInt8.ofNat (n + 128)] := by
  rw [encodeNum, BijectiveBase.digits_of_lt h, markLast]

/-- A digit in front of a number is a byte in front of its bytes. -/
theorem encodeNum_cons {d : Nat} (hd : d < 128) (n : Nat) :
    encodeNum (d + 128 * (1 + n)) = UInt8.ofNat d :: encodeNum n := by
  have hlt : ∀ x ∈ d :: BijectiveBase.digits 128 n, x < 128 := by
    intro x hx
    rcases List.mem_cons.mp hx with rfl | hx
    · exact hd
    · exact BijectiveBase.lt_of_mem_digits hx
  have hvalue : BijectiveBase.value 128 (d :: BijectiveBase.digits 128 n) = d + 128 * (1 + n) := by
    rw [BijectiveBase.value_cons (BijectiveBase.digits_ne_nil n), BijectiveBase.value_digits]
  -- no other digit string has that value
  rw [encodeNum, ← hvalue, BijectiveBase.digits_value (List.cons_ne_nil d _) hlt,
    markLast_cons (BijectiveBase.digits_ne_nil n), encodeNum]

/-- The bytes of a number close with one that has the high bit set. -/
theorem exists_last_encodeNum (n : Nat) :
    ∃ front last, EndsNumber last ∧ encodeNum n = front ++ [last] := by
  induction n using BijectiveBase.digits.induct 128 with
  | case1 n hn =>
    exact ⟨[], _, (endsNumber_ofNat_iff (by omega)).mpr (by omega), encodeNum_of_lt hn⟩
  | case2 n hn ih =>
    obtain ⟨front, last, hlast, hbytes⟩ := ih
    have hparts : n = n % 128 + 128 * (1 + (n / 128 - 1)) := by omega
    refine ⟨UInt8.ofNat (n % 128) :: front, last, hlast, ?_⟩
    rw [hparts, encodeNum_cons (by omega), hbytes, List.cons_append]
    congr 2
    omega

/-- **Uniqueness**: bytes with an end byte among them begin with the bytes of the number they begin
with. -/
theorem exists_encodeNum_append {unread : Bytes} (h : ∃ byte ∈ unread, EndsNumber byte) :
    ∃ rest, unread = encodeNum (numberOf unread) ++ rest := by
  induction unread with
  | nil =>
    obtain ⟨byte, hmem, -⟩ := h
    cases hmem
  | cons byte unread ih =>
    have hlt := byte.toNat_lt
    rw [numberOf]
    by_cases hend : EndsNumber byte
    · have hlow : lowBits byte + 128 = byte.toNat := by
        unfold EndsNumber at hend
        unfold lowBits
        omega
      refine ⟨unread, ?_⟩
      rw [if_pos hend, encodeNum_of_lt (lowBits_lt byte), hlow, UInt8.ofNat_toNat]
      rfl
    · -- the end byte stands further on
      have hlater : ∃ byte ∈ unread, EndsNumber byte := by
        obtain ⟨last, hmem, hlast⟩ := h
        rcases List.mem_cons.mp hmem with rfl | hmem
        · exact absurd hlast hend
        · exact ⟨last, hmem, hlast⟩
      obtain ⟨rest, hrest⟩ := ih hlater
      have hlow : lowBits byte = byte.toNat := Nat.mod_eq_of_lt (Nat.not_le.mp hend)
      refine ⟨rest, ?_⟩
      rw [if_neg hend, encodeNum_cons (lowBits_lt byte), hlow, UInt8.ofNat_toNat,
        List.cons_append, ← hrest]

/-- **Well-formed numbers are encodings**: the decoder reads a well-formed number exactly where the
bytes of a 64-bit number stand before the limit. -/
theorem wellFormedNumber_iff {data : Bytes} {limit offset : Nat} :
    WellFormedNumber data limit offset ↔ ∃ (n : UInt64) (rest : Bytes),
      data.drop offset = encodeNum n.toNat ++ rest ∧
        offset + (encodeNum n.toNat).length ≤ limit := by
  constructor
  · rintro ⟨⟨front, last, hlast, hslice⟩, hbefore, hexactly⟩
    have hmem : last ∈ data.drop offset := by
      apply List.mem_of_mem_take
      unfold slice at hslice
      rw [hslice]
      simp
    obtain ⟨rest, hrest⟩ := exists_encodeNum_append ⟨last, hmem, hlast⟩
    refine ⟨(decodeBpsNum data offset).1, rest, by rw [hexactly]; exact hrest, ?_⟩
    rw [decodeBpsNum_of_drop hrest] at hbefore
    rw [hexactly]
    exact hbefore
  · rintro ⟨n, rest, hdrop, hbefore⟩
    obtain ⟨front, last, hlast, hbytes⟩ := exists_last_encodeNum n.toNat
    have hdecoded := decodeBpsNum_of_drop hdrop
    refine ⟨⟨front, last, hlast, ?_⟩, ?_, ?_⟩
    · rw [hdecoded, Nat.add_sub_cancel_left, slice_of_drop hdrop, hbytes]
    · rw [hdecoded]; exact hbefore
    · rw [hdecoded, hdrop, numberOf_encodeNum_append, UInt64.ofNat_toNat]

end IUBPatch
