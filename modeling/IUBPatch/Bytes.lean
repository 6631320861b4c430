import IUBPatch.Errors
import Mathlib.Data.List.Basic
import Mathlib.Tactic.Ring

/-! # Byte vectors

`Bytes` models `std::vector<std::uint8_t>` by the list of its elements. A real vector never holds
more than `maxSize` elements; where that bound matters it is a hypothesis on the list, and `reserve`
and `resize` throw past it. -/

namespace IUBPatch

/-- `using Byte = std::uint8_t`. -/
abbrev Byte := UInt8

/-- `using Bytes = std::vector<Byte>`. -/
abbrev Bytes := List Byte

/-- `max_size()` of a byte vector (and the bound on a `std::string`). -/
def maxSize : Nat := 2 ^ 63 - 1

/-- `data.size()` as a 64-bit `std::size_t`. -/
def size (data : Bytes) : UInt64 := UInt64.ofNat data.length

/-- `size()` is exact on every vector. -/
theorem toNat_size {data : Bytes} (h : data.length ≤ maxSize) : (size data).toNat = data.length := by
  unfold maxSize at h
  rw [size, UInt64.toNat_ofNat', Nat.mod_eq_of_lt (by omega)]

/-- The elements `[start, start + length)`. -/
def slice (data : Bytes) (start length : Nat) : Bytes := (data.drop start).take length

theorem length_slice {data : Bytes} {start length : Nat} (h : start + length ≤ data.length) :
    (slice data start length).length = length := by
  rw [slice, List.length_take, List.length_drop]; omega

/-- Writing `bytes` over the elements from `start` on (`std::copy` and `std::fill_n`). -/
def overwrite (data : Bytes) (start : Nat) (bytes : Bytes) : Bytes :=
  data.take start ++ bytes ++ data.drop (start + bytes.length)

/-- `vec.reserve(n)`: throws when `n` exceeds `max_size()`; the elements stay as they are. -/
def reserve (n : UInt64) : Call Unit :=
  if n.toNat ≤ maxSize then .ok () else .throws .lengthError

/-- `vec.resize(n)`: drops the elements past `n`, or appends zeros up to `n`; throws when `n` exceeds
`max_size()`. -/
def resize (data : Bytes) (n : UInt64) : Call Bytes :=
  if n.toNat ≤ maxSize then
    .ok (data.take n.toNat ++ List.replicate (n.toNat - data.length) 0)
  else .throws .lengthError

/-- `str.assign(&data[start], n)`: throws when `n` exceeds the string's `max_size()`. -/
def assign (data : Bytes) (start : Nat) (n : UInt64) : Call Bytes :=
  if n.toNat ≤ maxSize then .ok (slice data start n.toNat) else .throws .lengthError

/-! ### Reading at an offset -/

/-- What stands behind a prefix of the unread bytes. -/
theorem drop_add_of_drop {data front rest : Bytes} {offset : Nat}
    (h : data.drop offset = front ++ rest) : data.drop (offset + front.length) = rest := by
  rw [← List.drop_drop, h, List.drop_left]

/-- Bytes unread at an offset put the end of the data that far behind it. -/
theorem length_of_drop {data unread : Bytes} {offset : Nat} (h : data.drop offset = unread)
    (hne : unread ≠ []) : data.length = offset + unread.length := by
  have hlt : offset < data.length := by
    by_contra hend
    rw [List.drop_eq_nil_of_le (Nat.not_lt.mp hend)] at h
    exact hne h.symm
  rw [← h, List.length_drop]
  omega

/-- A prefix of the unread bytes is the slice at the offset. -/
theorem slice_of_drop {data front rest : Bytes} {offset : Nat}
    (h : data.drop offset = front ++ rest) : slice data offset front.length = front := by
  rw [slice, h, List.take_left]

/-- Where words and a footer stand, the footer stands alone, or there is a word in front of it. -/
theorem footer_or_word_of_drop {α : Type} {encode : α → Bytes} (hpos : ∀ a, 0 < (encode a).length)
    {data footer : Bytes} (hfooter : footer.length = 12) {words : List α} {offset : Nat}
    (h : data.drop offset = words.flatMap encode ++ footer) :
    words = [] ∧ offset + 12 = data.length ∨
      ∃ word later, words = word :: later ∧ offset + 12 < data.length ∧
        offset + (encode word).length ≤ data.length - 12 ∧
        data.drop offset = encode word ++ (later.flatMap encode ++ footer) := by
  have hne : footer ≠ [] := List.ne_nil_of_length_pos (by omega)
  have hend := length_of_drop h (List.append_ne_nil_of_right_ne_nil _ hne)
  rw [List.length_append, hfooter] at hend
  cases words with
  | nil =>
    rw [List.flatMap_nil, List.length_nil] at hend
    exact .inl ⟨rfl, by omega⟩
  | cons word later =>
    have hword := hpos word
    rw [List.flatMap_cons, List.length_append] at hend
    rw [List.flatMap_cons, List.append_assoc] at h
    exact .inr ⟨word, later, rfl, by omega, by omega, h⟩

/-! ### Little-endian words -/

/-- The number whose little-endian bytes are given. -/
def littleEndian : Bytes → Nat
  | [] => 0
  | b :: bs => b.toNat + 256 * littleEndian bs

/-- The 32-bit word copied out of memory at `offset`, on a little-endian machine. -/
def uint32At (data : Bytes) (offset : Nat) : UInt32 := UInt32.ofNat (littleEndian (slice data offset 4))

/-- The four bytes of a 32-bit word, least significant first. -/
def uint32Bytes (word : UInt32) : Bytes :=
  [UInt8.ofNat word.toNat, UInt8.ofNat (word.toNat / 256), UInt8.ofNat (word.toNat / 65536),
    UInt8.ofNat (word.toNat / 16777216)]

@[simp] theorem length_uint32Bytes (word : UInt32) : (uint32Bytes word).length = 4 := rfl

theorem littleEndian_uint32Bytes (word : UInt32) : littleEndian (uint32Bytes word) = word.toNat := by
  have hlt := word.toNat_lt
  simp only [uint32Bytes, littleEndian, UInt8.toNat_ofNat']
  omega

/-- A word is read back from where its bytes stand. -/
theorem uint32At_of_drop {data rest : Bytes} {offset : Nat} {word : UInt32}
    (h : data.drop offset = uint32Bytes word ++ rest) : uint32At data offset = word := by
  have htake : slice data offset 4 = uint32Bytes word := slice_of_drop h
  rw [uint32At, htake, littleEndian_uint32Bytes, UInt32.ofNat_toNat]

end IUBPatch
