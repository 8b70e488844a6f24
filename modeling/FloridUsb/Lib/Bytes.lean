import Mathlib.Algebra.Group.Nat.Defs
import Mathlib.Data.List.GetD
import Mathlib.Data.List.TakeDrop

/-!
# Memory as a list of cells

`slice` reads a run of cells and `memcpy` overwrites one. The lemmas say how a read sees
a write: the written run reads back, a run beside it is unchanged, and adjacent runs join.
`le16` and `le32` are the little-endian words that byte-wise code reads and writes.
-/

namespace FloridUsb.Lib
set_option autoImplicit false

section Cells

variable {α : Type} {mem data : List α} {off o l k : Nat}

/-- The `len` cells from `off` on. -/
def slice (mem : List α) (off len : Nat) : List α := (mem.drop off).take len

/-- The memory with `data` written at `off`. -/
def memcpy (mem : List α) (off : Nat) (data : List α) : List α :=
  mem.take off ++ data ++ mem.drop (off + data.length)

theorem length_slice (h : off + l ≤ mem.length) : (slice mem off l).length = l := by
  simp only [slice, List.length_take, List.length_drop]
  omega

theorem length_memcpy (h : off + data.length ≤ mem.length) :
    (memcpy mem off data).length = mem.length := by
  simp only [memcpy, List.length_append, List.length_take, List.length_drop]
  omega

@[simp] theorem slice_zero (mem : List α) (off : Nat) : slice mem off 0 = [] := List.take_zero

/-- Adjacent runs join. -/
theorem slice_add (mem : List α) (off a b : Nat) :
    slice mem off (a + b) = slice mem off a ++ slice mem (off + a) b := by
  rw [slice, List.take_add, List.drop_drop]
  rfl

theorem drop_slice (mem : List α) (off l k : Nat) : (slice mem off l).drop k = slice mem (off + k) (l - k) := by
  rw [slice, List.drop_take, List.drop_drop]
  rfl

theorem take_slice (mem : List α) (off : Nat) (h : k ≤ l) : (slice mem off l).take k = slice mem off k := by
  rw [slice, List.take_take, Nat.min_eq_left h]
  rfl

theorem slice_slice (mem : List α) (off : Nat) (h : o + k ≤ l) :
    slice (slice mem off l) o k = slice mem (off + o) k := by
  rw [slice, drop_slice, take_slice _ _ (by omega)]

theorem slice_append (a b : List α) (h : off + l ≤ a.length) : slice (a ++ b) off l = slice a off l := by
  rw [slice, slice, List.drop_append_of_le_length (by omega), List.take_append_of_le_length (by simp; omega)]

theorem slice_append_right (a b : List α) (h : a.length ≤ off) : slice (a ++ b) off l = slice b (off - a.length) l := by
  rw [slice, slice, List.drop_append, List.drop_eq_nil_of_le h, List.nil_append]

/-- A run across the seam: the end of `a`, then the front of `b`. -/
theorem slice_append_across (a b : List α) (start : off ≤ a.length) (stop : a.length ≤ off + l) :
    slice (a ++ b) off l = slice a off (a.length - off) ++ slice b 0 (l - (a.length - off)) := by
  have whole : slice a off (a.length - off) = a.drop off := List.take_of_length_le (by simp)
  have front : (a.drop off).take l = a.drop off := List.take_of_length_le (by rw [List.length_drop]; omega)
  rw [whole, slice, slice, List.drop_append_of_le_length start, List.take_append, List.length_drop, front,
    List.drop_zero]

theorem slice_set_inside (mem : List α) (x : α) : slice (mem.set (off + k) x) off l = (slice mem off l).set k x := by
  rw [slice, List.drop_set, if_neg (by omega), List.take_set, Nat.add_sub_cancel_left]
  rfl

theorem slice_set_outside (mem : List α) (x : α) (h : k < off ∨ off + l ≤ k) :
    slice (mem.set k x) off l = slice mem off l := by
  rw [slice, List.drop_set]
  split
  · rfl
  · rw [List.take_set, List.set_eq_of_length_le]
    · rfl
    · rw [List.length_take]
      omega

theorem slice_memcpy_left (mem data : List α) (h : o + l ≤ off) (room : off ≤ mem.length) :
    slice (memcpy mem off data) o l = slice mem o l := by
  rw [slice, slice, memcpy, List.append_assoc, List.drop_append_of_le_length (by simp; omega),
    List.take_append_of_le_length (by simp; omega), List.drop_take, List.take_take, Nat.min_eq_left (by omega)]

theorem slice_memcpy_self (mem data : List α) (room : off ≤ mem.length) :
    slice (memcpy mem off data) off data.length = data := by
  rw [slice, memcpy, List.append_assoc, List.drop_append]
  simp [Nat.min_eq_left room]

theorem slice_memcpy_right (mem data : List α) (h : off + data.length ≤ o) (room : off ≤ mem.length) :
    slice (memcpy mem off data) o l = slice mem o l := by
  have len : (mem.take off ++ data).length = off + data.length := by
    rw [List.length_append, List.length_take, Nat.min_eq_left room]
  rw [slice, slice, memcpy, List.drop_append, len, List.drop_drop, List.drop_eq_nil_of_le (by omega),
    List.nil_append, Nat.add_sub_cancel' h]

/-- A write right after a run extends it. -/
theorem slice_memcpy_extend (mem data : List α) (room : off + k ≤ mem.length) :
    slice (memcpy mem (off + k) data) off (k + data.length) = slice mem off k ++ data := by
  rw [slice_add, slice_memcpy_left _ _ (by omega) room, slice_memcpy_self _ _ room]

end Cells

section Words

/-- The little-endian 16-bit word at `off`; cells past the end read as zero. -/
def le16 (bytes : List UInt8) (off : Nat) : UInt16 :=
  (bytes.getD off 0).toUInt16 ||| ((bytes.getD (off + 1) 0).toUInt16 <<< 8)

/-- The little-endian 32-bit word at `off`; cells past the end read as zero. -/
def le32 (bytes : List UInt8) (off : Nat) : UInt32 :=
  (bytes.getD off 0).toUInt32 ||| ((bytes.getD (off + 1) 0).toUInt32 <<< 8) |||
    ((bytes.getD (off + 2) 0).toUInt32 <<< 16) ||| ((bytes.getD (off + 3) 0).toUInt32 <<< 24)

/-- The two little-endian bytes of a 16-bit word. -/
def le16Bytes (w : UInt16) : List UInt8 := [(w &&& 0xFF).toUInt8, ((w >>> 8) &&& 0xFF).toUInt8]

/-- The four little-endian bytes of a 32-bit word. -/
def le32Bytes (w : UInt32) : List UInt8 :=
  [w.toUInt8, (w >>> 8).toUInt8, (w >>> 16).toUInt8, (w >>> 24).toUInt8]

@[simp] theorem length_le16Bytes (w : UInt16) : (le16Bytes w).length = 2 := rfl

@[simp] theorem length_le32Bytes (w : UInt32) : (le32Bytes w).length = 4 := rfl

theorem or_shiftLeft {a : Nat} (n b : Nat) (h : a < 2 ^ n) : a ||| b <<< n = a + b * 2 ^ n := by
  rw [Nat.or_comm, ← Nat.shiftLeft_add_eq_or_of_lt h, Nat.shiftLeft_eq, Nat.add_comm]

/-- The two bytes of a 16-bit word make it up again. -/
theorem le16_word (w : UInt16) :
    (w &&& 0xFF).toUInt8.toUInt16 ||| (((w >>> 8) &&& 0xFF).toUInt8.toUInt16 <<< 8) = w := by
  apply UInt16.toNat_inj.mp
  have bound := w.toNat_lt
  have low : ∀ n : Nat, n &&& 255 = n % 256 := fun n => Nat.and_two_pow_sub_one_eq_mod n 8
  have value : ((w &&& 0xFF).toUInt8.toUInt16 ||| (((w >>> 8) &&& 0xFF).toUInt8.toUInt16 <<< 8)).toNat =
      w.toNat % 256 ||| (w.toNat / 256 % 256) <<< 8 % 65536 := by
    simp [low, Nat.shiftRight_eq_div_pow]
  have fits : (w.toNat / 256 % 256) <<< 8 % 65536 = (w.toNat / 256 % 256) <<< 8 :=
    Nat.mod_eq_of_lt (by rw [Nat.shiftLeft_eq]; omega)
  rw [value, fits, or_shiftLeft 8 _ (by omega)]
  omega

/-- The four bytes of a 32-bit word make it up again. -/
theorem le32_word (w : UInt32) :
    w.toUInt8.toUInt32 ||| ((w >>> 8).toUInt8.toUInt32 <<< 8) |||
      ((w >>> 16).toUInt8.toUInt32 <<< 16) ||| ((w >>> 24).toUInt8.toUInt32 <<< 24) = w := by
  apply UInt32.toNat_inj.mp
  have bound := w.toNat_lt
  have fits : ∀ {a : Nat} (k : Nat), a < 256 → k ≤ 24 → a <<< k % 2 ^ 32 = a <<< k := by
    intro a k ha hk
    have : 2 ^ k ≤ 2 ^ 24 := Nat.pow_le_pow_right (by omega) hk
    apply Nat.mod_eq_of_lt
    rw [Nat.shiftLeft_eq]
    calc a * 2 ^ k ≤ 255 * 2 ^ 24 := Nat.mul_le_mul (by omega) this
      _ < 2 ^ 32 := by omega
  have byte : ∀ n : Nat, n % 256 < 256 := fun n => Nat.mod_lt n (by omega)
  have value : (w.toUInt8.toUInt32 ||| ((w >>> 8).toUInt8.toUInt32 <<< 8) |||
      ((w >>> 16).toUInt8.toUInt32 <<< 16) ||| ((w >>> 24).toUInt8.toUInt32 <<< 24)).toNat =
      w.toNat % 256 ||| (w.toNat / 2 ^ 8 % 256) <<< 8 % 2 ^ 32 ||| (w.toNat / 2 ^ 16 % 256) <<< 16 % 2 ^ 32 |||
        (w.toNat / 2 ^ 24 % 256) <<< 24 % 2 ^ 32 := by
    simp [Nat.shiftRight_eq_div_pow]
  rw [value, fits 8 (byte _) (by omega), fits 16 (byte _) (by omega), fits 24 (byte _) (by omega),
    or_shiftLeft 8 _ (by omega), or_shiftLeft 16 _ (by omega), or_shiftLeft 24 _ (by omega)]
  omega

/-- A word reads only its own bytes. -/
theorem le16_append (a b : List UInt8) (off : Nat) (h : off + 2 ≤ a.length) : le16 (a ++ b) off = le16 a off := by
  rw [le16, le16, List.getD_append _ _ _ _ (by omega), List.getD_append _ _ _ _ (by omega)]

theorem le16_drop (bytes : List UInt8) (off : Nat) : le16 bytes off = le16 (bytes.drop off) 0 := by
  simp only [le16, List.getD_eq_getElem?_getD, List.getElem?_drop, Nat.add_zero, Nat.zero_add]

theorem le32_drop (bytes : List UInt8) (off : Nat) : le32 bytes off = le32 (bytes.drop off) 0 := by
  simp only [le32, List.getD_eq_getElem?_getD, List.getElem?_drop, Nat.add_zero, Nat.zero_add]

theorem le16_append_right (a b : List UInt8) (off : Nat) (h : a.length ≤ off) :
    le16 (a ++ b) off = le16 b (off - a.length) := by
  rw [le16, le16, List.getD_append_right _ _ _ _ h, List.getD_append_right _ _ _ _ (by omega), Nat.sub_add_comm h]

theorem le16_take {bytes : List UInt8} {off n : Nat} (h : off + 2 ≤ n) (enough : n ≤ bytes.length) :
    le16 (bytes.take n) off = le16 bytes off := by
  conv => rhs; rw [← List.take_append_drop n bytes]
  rw [le16_append _ _ _ (by rw [List.length_take]; omega)]

/-- A word written in the bytes reads back. -/
theorem le16_le16Bytes (pre post : List UInt8) (w : UInt16) :
    le16 (pre ++ (le16Bytes w ++ post)) pre.length = w := by
  rw [le16_drop, List.drop_left]
  exact le16_word w

theorem le32_le32Bytes (pre post : List UInt8) (w : UInt32) :
    le32 (pre ++ (le32Bytes w ++ post)) pre.length = w := by
  rw [le32_drop, List.drop_left]
  exact le32_word w

end Words

end FloridUsb.Lib
