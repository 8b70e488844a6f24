import FloridUsb.Lib.Bytes
import Mathlib.Tactic.Common
import Mathlib.Algebra.GroupWithZero.Nat

/-!
# Bit-packed packets

`BitstreamSerializer.hpp` and `BitstreamParser.hpp`: a packet with a `BitLayout` is not copied but
packed, field by field, into the bits of its payload, from the lowest bit of the first byte on.
Both sides work chunk by chunk, a chunk being what of a field lies in one byte. Said of single
bits: a field occupies the bits from its offset on, and nothing else is changed.

A value is the bits of its type; those of a signed type are its two's complement.
-/

namespace FloridUsb.Rpl
set_option autoImplicit false

open Lib

/-- The bit with the number; there are none beyond the buffer. -/
def bitAt (buffer : List UInt8) (k : Nat) : Bool := (buffer.getD (k / 8) 0).toBitVec.getLsbD (k % 8)

section Chunks

variable {w : Nat}

/-- The loop of `extract_bits`. -/
def extractLoop (buffer : List UInt8) (bitWidth currentBitOffset bitsExtracted : Nat) (result : BitVec w) : BitVec w :=
  if bitsExtracted < bitWidth then
    let byteIndex := currentBitOffset / 8
    let bitInByte := currentBitOffset % 8
    let bitsToTake := min (bitWidth - bitsExtracted) (8 - bitInByte)
    match buffer[byteIndex]? with
    | none => result
    | some byte =>
      let byteVal := (byte.toBitVec >>> bitInByte) &&& .ofNat 8 (2 ^ bitsToTake - 1)
      extractLoop buffer bitWidth (currentBitOffset + bitsToTake) (bitsExtracted + bitsToTake)
        (result ||| (byteVal.setWidth w <<< bitsExtracted))
  else result
termination_by bitWidth - bitsExtracted

/-- `extract_bits` of an integer type of `w` bits. -/
def extractBits (w : Nat) (buffer : List UInt8) (bitOffset bitWidth : Nat) : BitVec w :=
  extractLoop buffer bitWidth bitOffset 0 0

/-- The loop of `inject_bits`. -/
def injectLoop (masked : BitVec w) (bitWidth currentBitOffset bitsInjected : Nat) (buffer : List UInt8) : List UInt8 :=
  if bitsInjected < bitWidth then
    let byteIndex := currentBitOffset / 8
    let bitInByte := currentBitOffset % 8
    let bitsToPut := min (bitWidth - bitsInjected) (8 - bitInByte)
    match buffer[byteIndex]? with
    | none => buffer
    | some byte =>
      let chunk := ((masked >>> bitsInjected) &&& .ofNat w (2 ^ bitsToPut - 1)).setWidth 8 <<< bitInByte
      injectLoop masked bitWidth (currentBitOffset + bitsToPut) (bitsInjected + bitsToPut)
        (buffer.set byteIndex (byte ||| .ofBitVec chunk))
  else buffer
termination_by bitWidth - bitsInjected

/-- `inject_bits` of an integer type of `w` bits. -/
def injectBits (value : BitVec w) (bitOffset bitWidth : Nat) (buffer : List UInt8) : List UInt8 :=
  injectLoop (if bitWidth < w then value &&& .ofNat w (2 ^ bitWidth - 1) else value) bitWidth bitOffset 0 buffer

end Chunks

/-- `Field<T, Bits>`, where `T` is an integer type or an array of such. -/
structure BitField where
  /-- The bits of the element type. -/
  capacity : Nat
  /-- The number of elements. -/
  count : Nat
  /-- `bits_per_element`. -/
  bits : Nat
  bits_le : bits ≤ capacity

/-- The value of a field. -/
abbrev BitField.Value (f : BitField) : Type := Fin f.count → BitVec f.capacity

/-- The values of the fields, in order. -/
def BitPacket : List BitField → Type
  | [] => Unit
  | f :: layout => f.Value × BitPacket layout

/-- The bits of all fields. -/
def totalBits (layout : List BitField) : Nat := (layout.map fun f => f.count * f.bits).sum

/-- `inject_bits` of a field: the elements one after the other. -/
def BitField.inject (f : BitField) (value : f.Value) (bitOffset : Nat) (buffer : List UInt8) : List UInt8 :=
  (List.finRange f.count).foldl (fun b i => injectBits (value i) (bitOffset + i * f.bits) f.bits b) buffer

/-- `extract_bits` of a field. -/
def BitField.extract (f : BitField) (bitOffset : Nat) (buffer : List UInt8) : f.Value :=
  fun i => extractBits f.capacity buffer (bitOffset + i * f.bits) f.bits

/-- `serialize_bitstream`, from the offset of the first field on. -/
def serializeBitstream : (layout : List BitField) → BitPacket layout → Nat → List UInt8 → List UInt8
  | [], _, _, buffer => buffer
  | f :: layout, (value, rest), bitOffset, buffer =>
    serializeBitstream layout rest (bitOffset + f.count * f.bits) (f.inject value bitOffset buffer)

/-- `deserialize_bitstream`, from the offset of the first field on. -/
def deserializeBitstream : (layout : List BitField) → Nat → List UInt8 → BitPacket layout
  | [], _, _ => ()
  | f :: layout, bitOffset, buffer =>
    (f.extract bitOffset buffer, deserializeBitstream layout (bitOffset + f.count * f.bits) buffer)

/-! ### Single bits -/

theorem getLsbD_mask {w k j : Nat} : (BitVec.ofNat w (2 ^ k - 1)).getLsbD j ↔ j < w ∧ j < k := by
  rw [BitVec.getLsbD_ofNat, Nat.testBit_two_pow_sub_one]
  simp

section Addressing

variable {buffer : List UInt8} {byte : UInt8} {c k m : Nat}

/-- The bits of the byte that the offset lies in. -/
theorem bitAt_add (has : buffer[c / 8]? = some byte) (inside : c % 8 + m < 8) :
    bitAt buffer (c + m) = byte.toBitVec.getLsbD (c % 8 + m) := by
  have index : (c + m) / 8 = c / 8 := by omega
  have bit : (c + m) % 8 = c % 8 + m := by omega
  rw [bitAt, index, bit, List.getD_eq_getElem?_getD, has]
  rfl

theorem bitAt_beyond (beyond : 8 * buffer.length ≤ k) : ¬ bitAt buffer k := by
  rw [bitAt, List.getD_eq_getElem?_getD, List.getElem?_eq_none (by omega)]
  simp

theorem bitAt_lt (set : bitAt buffer k) : k < 8 * buffer.length := by
  by_contra beyond
  exact bitAt_beyond (by omega) set

theorem bitAt_set (inside : c / 8 < buffer.length) :
    bitAt (buffer.set (c / 8) byte) k ↔ if k / 8 = c / 8 then byte.toBitVec.getLsbD (k % 8) else bitAt buffer k := by
  simp only [bitAt, List.getD_eq_getElem?_getD]
  by_cases same : k / 8 = c / 8
  · rw [if_pos same, same, List.getElem?_set_self inside]
    rfl
  · rw [if_neg same, List.getElem?_set_ne (Ne.symm same)]

end Addressing

section Loops

variable {w : Nat} {buffer : List UInt8} {bitWidth c e k : Nat}

/-- What the rest of the loop finds. -/
theorem extractLoop_bit (result : BitVec w) (j : Nat) (fits : bitWidth ≤ w) :
    (extractLoop buffer bitWidth c e result).getLsbD j ↔
      result.getLsbD j ∨ (e ≤ j ∧ j < bitWidth ∧ bitAt buffer (c + (j - e))) := by
  fun_induction extractLoop buffer bitWidth c e result with
  | case1 c e result more byteIndex short =>
    have short : buffer.length ≤ c / 8 := List.getElem?_eq_none_iff.mp short
    have beyond : ¬ bitAt buffer (c + (j - e)) := bitAt_beyond (by omega)
    simp [beyond]
  | case2 c e result more byteIndex bitInByte bitsToTake byte has byteVal ih =>
    have inByte : bitsToTake ≤ 8 - c % 8 := Nat.min_le_right _ _
    have inField : bitsToTake ≤ bitWidth - e := Nat.min_le_left _ _
    have chunk : (byteVal.setWidth w <<< e).getLsbD j ↔
        e ≤ j ∧ j - e < bitsToTake ∧ bitAt buffer (c + (j - e)) := by
      rw [BitVec.getLsbD_shiftLeft, BitVec.getLsbD_setWidth, BitVec.getLsbD_and, BitVec.getLsbD_ushiftRight]
      simp only [Bool.and_eq_true, Bool.not_eq_true', decide_eq_true_eq, decide_eq_false_iff_not, getLsbD_mask]
      constructor
      · rintro ⟨⟨-, above⟩, -, bit, -, taken⟩
        rw [bitAt_add has (by omega)]
        exact ⟨by omega, taken, bit⟩
      · rintro ⟨above, taken, bit⟩
        rw [bitAt_add has (by omega)] at bit
        exact ⟨⟨by omega, by omega⟩, by omega, bit, by omega, taken⟩
    rw [ih, BitVec.getLsbD_or, Bool.or_eq_true, chunk, or_assoc]
    refine or_congr_right ?_
    by_cases later : e + bitsToTake ≤ j
    · rw [show c + bitsToTake + (j - (e + bitsToTake)) = c + (j - e) by omega]
      constructor
      · rintro (⟨-, taken, -⟩ | ⟨-, below, bit⟩)
        · omega
        · exact ⟨by omega, below, bit⟩
      · rintro ⟨-, below, bit⟩
        exact .inr ⟨later, below, bit⟩
    · constructor
      · rintro (⟨above, -, bit⟩ | ⟨after, -⟩)
        · exact ⟨above, by omega, bit⟩
        · exact absurd after later
      · rintro ⟨above, below, bit⟩
        exact .inl ⟨above, by omega, bit⟩
  | case3 c e result done =>
    constructor
    · exact .inl
    · rintro (found | ⟨above, below, -⟩)
      · exact found
      · omega

/-- What the rest of the loop sets. -/
theorem injectLoop_bit (masked : BitVec w) (fits : bitWidth ≤ w) :
    bitAt (injectLoop masked bitWidth c e buffer) k ↔
      bitAt buffer k ∨ (c ≤ k ∧ k < c + (bitWidth - e) ∧ k < 8 * buffer.length ∧ masked.getLsbD (e + (k - c))) := by
  fun_induction injectLoop masked bitWidth c e buffer with
  | case1 c e buffer more byteIndex short =>
    have short : buffer.length ≤ c / 8 := List.getElem?_eq_none_iff.mp short
    constructor
    · exact .inl
    · rintro (set | ⟨after, -, inside, -⟩)
      · exact set
      · omega
  | case2 c e buffer more byteIndex bitInByte bitsToPut byte has chunk ih =>
    have inByte : bitsToPut ≤ 8 - c % 8 := Nat.min_le_right _ _
    have inField : bitsToPut ≤ bitWidth - e := Nat.min_le_left _ _
    obtain ⟨inside, -⟩ := List.getElem?_eq_some_iff.mp has
    have chunk_bit (m : Nat) (small : m < 8) :
        chunk.getLsbD m ↔ c % 8 ≤ m ∧ m - c % 8 < bitsToPut ∧ masked.getLsbD (e + (m - c % 8)) := by
      rw [BitVec.getLsbD_shiftLeft, BitVec.getLsbD_setWidth, BitVec.getLsbD_and, BitVec.getLsbD_ushiftRight]
      simp only [Bool.and_eq_true, Bool.not_eq_true', decide_eq_true_eq, decide_eq_false_iff_not, getLsbD_mask]
      constructor
      · rintro ⟨⟨-, above⟩, -, bit, -, put⟩
        exact ⟨by omega, put, bit⟩
      · rintro ⟨above, put, bit⟩
        exact ⟨⟨small, by omega⟩, by omega, bit, by omega, put⟩
    have first : bitAt (buffer.set byteIndex (byte ||| .ofBitVec chunk)) k ↔
        bitAt buffer k ∨ (c ≤ k ∧ k < c + bitsToPut ∧ masked.getLsbD (e + (k - c))) := by
      rw [bitAt_set inside]
      by_cases here : k / 8 = c / 8
      · have byteBit : bitAt buffer k = byte.toBitVec.getLsbD (k % 8) := by
          rw [bitAt, here, List.getD_eq_getElem?_getD, has]
          rfl
        rw [if_pos here, UInt8.toBitVec_or, UInt8.toBitVec_ofBitVec, BitVec.getLsbD_or, Bool.or_eq_true,
          chunk_bit _ (by omega), byteBit]
        refine or_congr_right ?_
        constructor
        · rintro ⟨above, put, bit⟩
          rw [show k % 8 - c % 8 = k - c by omega] at bit put
          exact ⟨by omega, by omega, bit⟩
        · rintro ⟨above, put, bit⟩
          rw [show k % 8 - c % 8 = k - c by omega]
          exact ⟨by omega, by omega, bit⟩
      · rw [if_neg here]
        constructor
        · exact .inl
        · rintro (set | ⟨above, put, -⟩)
          · exact set
          · omega
    rw [ih, first, List.length_set, or_assoc]
    refine or_congr_right ?_
    by_cases later : c + bitsToPut ≤ k
    · rw [show e + bitsToPut + (k - (c + bitsToPut)) = e + (k - c) by omega]
      constructor
      · rintro (⟨-, put, -⟩ | ⟨-, below, whole, bit⟩)
        · omega
        · exact ⟨by omega, by omega, whole, bit⟩
      · rintro ⟨-, below, whole, bit⟩
        exact .inr ⟨later, by omega, whole, bit⟩
    · constructor
      · rintro (⟨above, put, bit⟩ | ⟨after, -⟩)
        · exact ⟨above, by omega, by omega, bit⟩
        · exact absurd after later
      · rintro ⟨above, below, -, bit⟩
        exact .inl ⟨above, by omega, bit⟩
  | case3 c e buffer done =>
    constructor
    · exact .inl
    · rintro (set | ⟨above, below, -⟩)
      · exact set
      · omega

theorem length_injectLoop (masked : BitVec w) : (injectLoop masked bitWidth c e buffer).length = buffer.length := by
  fun_induction injectLoop masked bitWidth c e buffer with
  | case1 => rfl
  | case2 c e buffer more byteIndex bitInByte bitsToPut byte has chunk ih => rw [ih, List.length_set]
  | case3 => rfl

end Loops

section Fields

variable {w : Nat} {buffer : List UInt8} {bitOffset bitWidth k j : Nat}

theorem extractBits_bit (fits : bitWidth ≤ w) :
    (extractBits w buffer bitOffset bitWidth).getLsbD j ↔ j < bitWidth ∧ bitAt buffer (bitOffset + j) := by
  rw [extractBits, extractLoop_bit 0 j fits]
  simp

theorem injectBits_bit (value : BitVec w) (fits : bitWidth ≤ w) :
    bitAt (injectBits value bitOffset bitWidth buffer) k ↔
      bitAt buffer k ∨ (bitOffset ≤ k ∧ k < bitOffset + bitWidth ∧ k < 8 * buffer.length ∧
        value.getLsbD (k - bitOffset)) := by
  rw [injectBits, injectLoop_bit _ fits, Nat.sub_zero, Nat.zero_add]
  refine or_congr_right (and_congr_right fun above => and_congr_right fun below => and_congr_right fun _ => ?_)
  split
  · rw [BitVec.getLsbD_and, Bool.and_eq_true, getLsbD_mask]
    exact ⟨And.left, fun bit => ⟨bit, by omega, by omega⟩⟩
  · rfl

@[simp] theorem length_injectBits (value : BitVec w) :
    (injectBits value bitOffset bitWidth buffer).length = buffer.length :=
  length_injectLoop _

end Fields

/-! ### Whole packets -/

/-- The bits that a field sets, from its offset on. -/
def BitField.Sets (f : BitField) (value : f.Value) (bitOffset k : Nat) : Prop :=
  ∃ (i : Fin f.count) (j : Nat), j < f.bits ∧ k = bitOffset + i * f.bits + j ∧ (value i).getLsbD j

/-- The bits that a packet sets. -/
def BitPacket.Sets : (layout : List BitField) → BitPacket layout → Nat → Nat → Prop
  | [], _, _, _ => False
  | f :: layout, (value, rest), bitOffset, k =>
    f.Sets value bitOffset k ∨ Sets layout rest (bitOffset + f.count * f.bits) k

/-- The packet with the bits that its fields have room for. -/
def BitPacket.clip : (layout : List BitField) → BitPacket layout → BitPacket layout
  | [], _ => ()
  | f :: layout, (value, rest) => (fun i => value i &&& .ofNat f.capacity (2 ^ f.bits - 1), clip layout rest)

/-- Each value is below two to the width of its field. -/
def BitPacket.InRange : (layout : List BitField) → BitPacket layout → Prop
  | [], _ => True
  | f :: layout, (value, rest) => (∀ i, (value i).toNat < 2 ^ f.bits) ∧ InRange layout rest

namespace BitField

variable {f : BitField} {value : f.Value} {bitOffset k : Nat} {buffer : List UInt8}

theorem element_lt (i : Fin f.count) {j : Nat} (inside : j < f.bits) : i * f.bits + j < f.count * f.bits := by
  have room : (i.val + 1) * f.bits ≤ f.count * f.bits := Nat.mul_le_mul_right _ i.isLt
  rw [Nat.add_mul, Nat.one_mul] at room
  omega

theorem Sets.bounds (sets : f.Sets value bitOffset k) : bitOffset ≤ k ∧ k < bitOffset + f.count * f.bits := by
  obtain ⟨i, j, inside, rfl, -⟩ := sets
  have := element_lt i inside
  omega

/-- A bit of an element is set by that element alone. -/
theorem sets_element (i : Fin f.count) {j : Nat} (inside : j < f.bits) :
    f.Sets value bitOffset (bitOffset + i * f.bits + j) ↔ (value i).getLsbD j := by
  constructor
  · rintro ⟨i', j', inside', same, bit⟩
    have sum : i'.val * f.bits + j' = i.val * f.bits + j := by omega
    have pos : 0 < f.bits := by omega
    have element : i' = i := by
      have quotient := congrArg (· / f.bits) sum
      simp only [Nat.mul_comm _ f.bits, Nat.mul_add_div pos, Nat.div_eq_of_lt inside, Nat.div_eq_of_lt inside',
        Nat.add_zero] at quotient
      exact Fin.ext quotient
    subst element
    rw [Nat.add_left_cancel sum] at bit
    exact bit
  · exact fun bit => ⟨i, j, inside, rfl, bit⟩

/-- Where a bit inside a field lies. -/
theorem element_of_bounds (above : bitOffset ≤ k) (below : k < bitOffset + f.count * f.bits) :
    ∃ (i : Fin f.count) (j : Nat), j < f.bits ∧ k = bitOffset + i * f.bits + j := by
  have pos : 0 < f.bits := by
    by_contra none
    rw [Nat.eq_zero_of_not_pos none, Nat.mul_zero] at below
    omega
  have index : (k - bitOffset) / f.bits < f.count := (Nat.div_lt_iff_lt_mul pos).mpr (by omega)
  have division := Nat.div_add_mod (k - bitOffset) f.bits
  rw [Nat.mul_comm] at division
  exact ⟨⟨_, index⟩, (k - bitOffset) % f.bits, Nat.mod_lt _ pos, by dsimp only; omega⟩

theorem inject_bit :
    bitAt (f.inject value bitOffset buffer) k ↔
      bitAt buffer k ∨ (k < 8 * buffer.length ∧ f.Sets value bitOffset k) := by
  have elements (elems : List (Fin f.count)) (b : List UInt8) :
      bitAt (elems.foldl (fun b i => injectBits (value i) (bitOffset + i * f.bits) f.bits b) b) k ↔
        bitAt b k ∨ (k < 8 * b.length ∧
          ∃ i ∈ elems, ∃ j, j < f.bits ∧ k = bitOffset + i * f.bits + j ∧ (value i).getLsbD j) := by
    induction elems generalizing b with
    | nil => simp
    | cons i elems ih =>
      have element : (bitOffset + i * f.bits ≤ k ∧ k < bitOffset + i * f.bits + f.bits ∧ k < 8 * b.length ∧
          (value i).getLsbD (k - (bitOffset + i * f.bits))) ↔
          k < 8 * b.length ∧ ∃ j, j < f.bits ∧ k = bitOffset + i * f.bits + j ∧ (value i).getLsbD j := by
        constructor
        · rintro ⟨above, below, whole, bit⟩
          exact ⟨whole, k - (bitOffset + i * f.bits), by omega, by omega, bit⟩
        · rintro ⟨whole, j, inside, rfl, bit⟩
          exact ⟨by omega, by omega, whole, by rwa [Nat.add_sub_cancel_left]⟩
      rw [List.foldl_cons, ih, injectBits_bit _ f.bits_le, length_injectBits, element, or_assoc, ← and_or_left]
      simp only [List.mem_cons, exists_eq_or_imp]
  rw [inject, elements]
  simp [Sets]

@[simp] theorem length_inject : (f.inject value bitOffset buffer).length = buffer.length := by
  rw [inject]
  generalize List.finRange f.count = elems
  induction elems generalizing buffer with
  | nil => rfl
  | cons i elems ih => rw [List.foldl_cons, ih, length_injectBits]

end BitField

section Packets

variable {layout : List BitField} {bitOffset k : Nat} {buffer : List UInt8}

theorem totalBits_cons (f : BitField) (layout : List BitField) :
    totalBits (f :: layout) = f.count * f.bits + totalBits layout := by
  rw [totalBits, List.map_cons, List.sum_cons, totalBits]

theorem BitPacket.Sets.bounds {p : BitPacket layout} (sets : Sets layout p bitOffset k) :
    bitOffset ≤ k ∧ k < bitOffset + totalBits layout := by
  induction layout generalizing bitOffset with
  | nil => exact sets.elim
  | cons f layout ih =>
    obtain ⟨value, rest⟩ := p
    rw [totalBits_cons]
    cases sets with
    | inl here =>
      have bounds := here.bounds
      omega
    | inr later =>
      have bounds := ih later
      omega

theorem serializeBitstream_bit (p : BitPacket layout) :
    bitAt (serializeBitstream layout p bitOffset buffer) k ↔
      bitAt buffer k ∨ (k < 8 * buffer.length ∧ BitPacket.Sets layout p bitOffset k) := by
  induction layout generalizing bitOffset buffer with
  | nil => simp [serializeBitstream, BitPacket.Sets]
  | cons f layout ih =>
    obtain ⟨value, rest⟩ := p
    rw [serializeBitstream, ih, BitField.inject_bit, BitField.length_inject, or_assoc, ← and_or_left]
    rfl

theorem bitAt_zeros (size : Nat) : ¬ bitAt (List.replicate size 0) k := by
  rw [bitAt, List.getD_eq_getElem?_getD, List.getElem?_replicate]
  split <;> simp

/-- A buffer with the bits of a packet gives the packet back. -/
theorem deserialize_of_sets {p : BitPacket layout}
    (holds : ∀ k, bitOffset ≤ k → k < bitOffset + totalBits layout →
      (bitAt buffer k ↔ BitPacket.Sets layout p bitOffset k)) :
    deserializeBitstream layout bitOffset buffer = p.clip := by
  induction layout generalizing bitOffset with
  | nil => rfl
  | cons f layout ih =>
    obtain ⟨value, rest⟩ := p
    rw [totalBits_cons] at holds
    have field : f.extract bitOffset buffer = fun i => value i &&& .ofNat f.capacity (2 ^ f.bits - 1) := by
      funext i
      refine BitVec.eq_of_getLsbD_eq fun j inside => Bool.eq_iff_iff.mpr ?_
      rw [BitField.extract, extractBits_bit f.bits_le, BitVec.getLsbD_and, Bool.and_eq_true, getLsbD_mask]
      by_cases small : j < f.bits
      · have element : f.Sets value bitOffset (bitOffset + i * f.bits + j) ↔ (value i).getLsbD j :=
          BitField.sets_element i small
        have here := BitField.element_lt i small
        have later : ¬ BitPacket.Sets layout rest (bitOffset + f.count * f.bits) (bitOffset + i * f.bits + j) := by
          intro sets
          have := sets.bounds
          omega
        rw [holds _ (by omega) (by omega), BitPacket.Sets, element]
        tauto
      · tauto
    have others : deserializeBitstream layout (bitOffset + f.count * f.bits) buffer = rest.clip := by
      refine ih fun k above below => ?_
      have before : ¬ f.Sets value bitOffset k := by
        intro sets
        have := sets.bounds
        omega
      rw [holds k (by omega) (by omega), BitPacket.Sets]
      tauto
    rw [deserializeBitstream, field, others]
    rfl

/-- What is read from a buffer are its bits. -/
theorem sets_deserialize :
    BitPacket.Sets layout (deserializeBitstream layout bitOffset buffer) bitOffset k ↔
      bitOffset ≤ k ∧ k < bitOffset + totalBits layout ∧ bitAt buffer k := by
  induction layout generalizing bitOffset with
  | nil =>
    simp only [BitPacket.Sets, totalBits, List.map_nil, List.sum_nil, false_iff]
    omega
  | cons f layout ih =>
    have field : f.Sets (f.extract bitOffset buffer) bitOffset k ↔
        bitOffset ≤ k ∧ k < bitOffset + f.count * f.bits ∧ bitAt buffer k := by
      constructor
      · intro sets
        obtain ⟨above, below⟩ := sets.bounds
        obtain ⟨i, j, inside, rfl, bit⟩ := sets
        rw [BitField.extract, extractBits_bit f.bits_le] at bit
        exact ⟨above, below, bit.2⟩
      · rintro ⟨above, below, bit⟩
        obtain ⟨i, j, inside, rfl⟩ := BitField.element_of_bounds above below
        exact ⟨i, j, inside, rfl, (extractBits_bit f.bits_le).mpr ⟨inside, bit⟩⟩
    rw [deserializeBitstream, BitPacket.Sets, field, ih, totalBits_cons]
    constructor
    · rintro (⟨above, below, bit⟩ | ⟨above, below, bit⟩)
      · exact ⟨above, by omega, bit⟩
      · exact ⟨by omega, by omega, bit⟩
    · rintro ⟨above, below, bit⟩
      by_cases here : k < bitOffset + f.count * f.bits
      · exact .inl ⟨above, here, bit⟩
      · exact .inr ⟨by omega, by omega, bit⟩

theorem clip_eq_iff (p : BitPacket layout) : p.clip = p ↔ p.InRange := by
  induction layout with
  | nil => exact ⟨fun _ => trivial, fun _ => rfl⟩
  | cons f layout ih =>
    obtain ⟨value, rest⟩ := p
    have element (v : BitVec f.capacity) : v &&& .ofNat f.capacity (2 ^ f.bits - 1) = v ↔ v.toNat < 2 ^ f.bits := by
      have pos := Nat.two_pow_pos f.bits
      have room : 2 ^ f.bits ≤ 2 ^ f.capacity := Nat.pow_le_pow_right (by omega) f.bits_le
      rw [← BitVec.toNat_inj, BitVec.toNat_and, BitVec.toNat_ofNat, Nat.mod_eq_of_lt (by omega),
        Nat.and_two_pow_sub_one_eq_mod, Nat.mod_eq_iff_lt (by omega)]
    have fields : (fun i => value i &&& .ofNat f.capacity (2 ^ f.bits - 1)) = value ↔
        ∀ i, (value i).toNat < 2 ^ f.bits := by
      rw [funext_iff]
      exact forall_congr' fun i => element (value i)
    exact Prod.ext_iff.trans (and_congr fields (ih rest))

end Packets

/-- **Unpacking what was packed** gives the packet back exactly if its values fit their fields. -/
theorem bitstream_unpack_pack {layout : List BitField} {size : Nat} (room : totalBits layout ≤ 8 * size)
    (p : BitPacket layout) :
    deserializeBitstream layout 0 (serializeBitstream layout p 0 (List.replicate size 0)) = p ↔ p.InRange := by
  rw [← clip_eq_iff, deserialize_of_sets]
  intro k _ below
  rw [serializeBitstream_bit, List.length_replicate]
  have empty : ¬ bitAt (List.replicate size 0) k := bitAt_zeros size
  have inside : k < 8 * size := by omega
  tauto

/-- Three flags, a channel of eleven bits and a word. -/
def flagsLayout : List BitField := [⟨8, 1, 3, by decide⟩, ⟨16, 1, 11, by decide⟩, ⟨16, 1, 16, by decide⟩]

def flagsPacket : BitPacket flagsLayout := (fun _ => 5, fun _ => 1500, fun _ => 0xFFFE, ())

theorem bitstream_unpack_pack_flags :
    deserializeBitstream flagsLayout 0 (serializeBitstream flagsLayout flagsPacket 0 (List.replicate 4 0)) =
      flagsPacket :=
  (bitstream_unpack_pack (by decide) flagsPacket).mpr
    ⟨by decide, by decide, by decide, trivial⟩

/-- **Packing what was unpacked** gives the buffer back, but for the bits behind the last field. -/
theorem bitstream_pack_unpack (layout : List BitField) (buffer : List UInt8) (k : Nat) :
    bitAt (serializeBitstream layout (deserializeBitstream layout 0 buffer) 0 (List.replicate buffer.length 0)) k ↔
      k < totalBits layout ∧ bitAt buffer k := by
  rw [serializeBitstream_bit, List.length_replicate, sets_deserialize, Nat.zero_add]
  have empty : ¬ bitAt (List.replicate buffer.length 0) k := bitAt_zeros _
  constructor
  · rintro (set | ⟨-, -, below, bit⟩)
    · exact absurd set empty
    · exact ⟨below, bit⟩
  · rintro ⟨below, bit⟩
    exact .inr ⟨bitAt_lt bit, Nat.zero_le _, below, bit⟩

end FloridUsb.Rpl
