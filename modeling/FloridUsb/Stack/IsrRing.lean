import FloridUsb.Lib.Bytes

/-!
# The interrupt ring buffer

`ISRRingBuffer` (`ISRRingBuffer.hpp`) of capacity `2 ^ k`, with `size_t` indices of `N` bits
that only ever grow and wrap at `2 ^ N`. The ring is a FIFO of bytes (`content`): an accepted
write appends, a read takes from the front, and a refused write changes no byte.

The invariant is part of the type: the array has the capacity, and the writer is never more
than a capacity ahead of the reader, across the wrap of both indices.
-/

namespace FloridUsb.Stack
set_option autoImplicit false

open Lib

/-- `Capacity`, a power of two. -/
def capacity (k : Nat) : Nat := 2 ^ k

structure ISRRingBuffer (N k : Nat) where
  buf : List UInt8
  writeIdx : BitVec N
  dropCount : BitVec N
  readIdx : BitVec N
  length_buf : buf.length = capacity k
  narrow : k < N
  filled : (writeIdx - readIdx).toNat ≤ capacity k

namespace ISRRingBuffer

variable {N k : Nat}

/-- An index within the array: `idx & kMask`. -/
def masked (k : Nat) (idx : BitVec N) : Nat := (idx &&& BitVec.ofNat N (capacity k - 1)).toNat

def init (narrow : k < N) : ISRRingBuffer N k where
  buf := List.replicate (capacity k) 0
  writeIdx := 0
  dropCount := 0
  readIdx := 0
  length_buf := List.length_replicate
  narrow := narrow
  filled := by simp

variable (r : ISRRingBuffer N k)

def available : Nat := (r.writeIdx - r.readIdx).toNat

/-- The array after the copies of a write. -/
def copyIn (data : List UInt8) : List UInt8 :=
  let wi := masked k r.writeIdx
  let first := capacity k - wi
  if data.length ≤ first then memcpy r.buf wi data
  else memcpy (memcpy r.buf wi (data.take first)) 0 (data.drop first)

/-- The bytes a read of `n` copies out. -/
def copyOut (n : Nat) : List UInt8 :=
  let ri := masked k r.readIdx
  let first := capacity k - ri
  if n ≤ first then slice r.buf ri n else slice r.buf ri first ++ slice r.buf 0 (n - first)

/-! ### Indices -/

theorem capacity_pos (k : Nat) : 0 < capacity k := Nat.two_pow_pos k

theorem capacity_lt (narrow : k < N) : capacity k < 2 ^ N := Nat.pow_lt_pow_right (by omega) narrow

theorem masked_eq (narrow : k < N) (idx : BitVec N) : masked k idx = idx.toNat % capacity k := by
  have fits : capacity k - 1 < 2 ^ N := by
    have := capacity_lt narrow
    have := capacity_pos k
    omega
  rw [masked, BitVec.toNat_and, BitVec.toNat_ofNat, Nat.mod_eq_of_lt fits, capacity, Nat.and_two_pow_sub_one_eq_mod]

theorem masked_lt : masked k r.readIdx < capacity k := by
  rw [masked_eq r.narrow]
  exact Nat.mod_lt _ (capacity_pos k)

/-- Adding to an index moves its place around the array. -/
theorem masked_add (narrow : k < N) (idx : BitVec N) (n : Nat) :
    masked k (idx + BitVec.ofNat N n) = (masked k idx + n) % capacity k := by
  have divides : 2 ^ k ∣ 2 ^ N := Nat.pow_dvd_pow 2 (Nat.le_of_lt narrow)
  rw [masked_eq narrow, masked_eq narrow, capacity, BitVec.toNat_add, BitVec.toNat_ofNat, Nat.mod_mod_of_dvd _ divides,
    Nat.add_mod, Nat.mod_mod_of_dvd _ divides, ← Nat.add_mod, Nat.mod_add_mod]

/-- The writer's place, seen from the reader's. -/
theorem masked_writeIdx : masked k r.writeIdx = (masked k r.readIdx + r.available) % capacity k := by
  rw [← masked_add r.narrow, available, BitVec.ofNat_toNat, BitVec.setWidth_eq]
  congr 1
  rw [BitVec.add_comm, BitVec.sub_add_cancel]

theorem length_copyIn {data : List UInt8} (fits : data.length ≤ capacity k) : (r.copyIn data).length = capacity k := by
  have size := r.length_buf
  have place : masked k r.writeIdx < capacity k := by
    rw [masked_eq r.narrow]
    exact Nat.mod_lt _ (capacity_pos k)
  simp only [copyIn]
  split
  · rw [length_memcpy (by omega), size]
  · have inner : (memcpy r.buf (masked k r.writeIdx) (data.take (capacity k - masked k r.writeIdx))).length =
      capacity k := by
      rw [length_memcpy (by rw [List.length_take]; omega), size]
    rw [length_memcpy (by rw [inner, List.length_drop]; omega), inner]

theorem filled_write {len : Nat} (fits : len ≤ capacity k - r.available) :
    (r.writeIdx + BitVec.ofNat N len - r.readIdx).toNat = r.available + len := by
  have larger := capacity_lt r.narrow
  have := r.filled
  have shuffle : r.writeIdx + BitVec.ofNat N len - r.readIdx = (r.writeIdx - r.readIdx) + BitVec.ofNat N len := by
    rw [BitVec.sub_eq_add_neg, BitVec.sub_eq_add_neg, BitVec.add_assoc, BitVec.add_assoc,
      BitVec.add_comm (BitVec.ofNat N len)]
  simp only [available] at fits ⊢
  rw [shuffle, BitVec.toNat_add, BitVec.toNat_ofNat, Nat.mod_eq_of_lt (show len < 2 ^ N by omega),
    Nat.mod_eq_of_lt (by omega)]

theorem filled_read {n : Nat} (fits : n ≤ r.available) :
    (r.writeIdx - (r.readIdx + BitVec.ofNat N n)).toNat = r.available - n := by
  have bound := (r.writeIdx - r.readIdx).isLt
  have shuffle : r.writeIdx - (r.readIdx + BitVec.ofNat N n) = (r.writeIdx - r.readIdx) - BitVec.ofNat N n := by
    rw [BitVec.sub_eq_add_neg, BitVec.neg_add, BitVec.sub_eq_add_neg (-r.readIdx), ← BitVec.add_assoc,
      ← BitVec.sub_eq_add_neg, ← BitVec.sub_eq_add_neg]
  simp only [available] at fits ⊢
  have small : (BitVec.ofNat N n).toNat = n := by
    rw [BitVec.toNat_ofNat, Nat.mod_eq_of_lt (by omega)]
  rw [shuffle, BitVec.toNat_sub_of_le (by rw [BitVec.le_def, small]; exact fits), small]

/-! ### The operations -/

/-- `write`: the flag is false if the bytes do not fit and are dropped. -/
def write (data : List UInt8) : ISRRingBuffer N k × Bool :=
  if data.length > capacity k then ({ r with dropCount := r.dropCount + 1 }, false)
  else if full : data.length > capacity k - r.available then ({ r with dropCount := r.dropCount + 1 }, false)
  else
    ({ r with
        buf := r.copyIn data
        writeIdx := r.writeIdx + BitVec.ofNat N data.length
        length_buf := r.length_copyIn (by omega)
        filled := by
          have : r.available ≤ capacity k := r.filled
          rw [r.filled_write (by omega)]
          omega }, true)

/-- `read`: at most `max` bytes. -/
def read (max : Nat) : ISRRingBuffer N k × List UInt8 :=
  if r.available = 0 ∨ max = 0 then (r, [])
  else
    let n := if max < r.available then max else r.available
    ({ r with
        readIdx := r.readIdx + BitVec.ofNat N n
        filled := by
          have : r.available ≤ capacity k := r.filled
          have : n ≤ r.available := by
            simp only [n]
            split <;> omega
          rw [r.filled_read this]
          omega }, r.copyOut n)

/-! ### The FIFO -/

/-- The unread bytes, oldest first: a run of the array laid out twice. -/
def content : List UInt8 := slice (r.buf ++ r.buf) (masked k r.readIdx) r.available

@[simp] theorem content_init (narrow : k < N) : (init narrow).content = [] := by
  simp [content, available, init]

@[simp] theorem length_content : r.content.length = r.available := by
  have := r.masked_lt
  have := r.filled
  simp only [available] at *
  rw [content, available, length_slice (by rw [List.length_append, r.length_buf]; omega)]

theorem copyOut_eq {n : Nat} (fits : n ≤ r.available) : r.copyOut n = r.content.take n := by
  have place := r.masked_lt
  have size := r.length_buf
  have full : r.available ≤ capacity k := r.filled
  rw [content, take_slice _ _ fits, copyOut]
  split
  · rw [slice_append _ _ (by omega)]
  · rw [slice_append_across _ _ (by omega) (by omega), size]

/-- The bytes behind the unread ones, once they have been copied in. -/
theorem copyIn_content {data : List UInt8} (fits : data.length ≤ capacity k - r.available) :
    slice (r.copyIn data ++ r.copyIn data) (masked k r.readIdx) (r.available + data.length) = r.content ++ data := by
  have size := r.length_buf
  have start := r.masked_lt
  have full : r.available ≤ capacity k := r.filled
  have place := r.masked_writeIdx
  have size' := r.length_copyIn (show data.length ≤ capacity k by omega)
  rw [content]
  by_cases low : masked k r.readIdx + r.available < capacity k
  · -- the unread bytes end inside the array, and the new ones start right behind them
    rw [Nat.mod_eq_of_lt low] at place
    by_cases within : data.length ≤ capacity k - masked k r.writeIdx
    · have copied : r.copyIn data = memcpy r.buf (masked k r.readIdx + r.available) data := by
        rw [copyIn, if_pos within, place]
      rw [slice_append _ _ (by omega), slice_append _ _ (by omega), copied, slice_memcpy_extend _ _ (by omega)]
    · generalize hd : capacity k - masked k r.writeIdx = first at within
      have copied : r.copyIn data = memcpy (memcpy r.buf (masked k r.readIdx + r.available) (data.take first)) 0
          (data.drop first) := by
        rw [copyIn, hd, if_neg within, place]
      have lenFront : (data.take first).length = first := by
        rw [List.length_take]
        omega
      have lenBack : (data.drop first).length = data.length - first := List.length_drop
      rw [slice_append_across _ _ (by omega) (by omega), slice_append _ _ (by omega), size', copied,
        slice_memcpy_right _ _ (by omega) (Nat.zero_le _),
        show capacity k - masked k r.readIdx = r.available + (data.take first).length by omega,
        slice_memcpy_extend _ _ (by omega),
        show r.available + data.length - (r.available + (data.take first).length) = (data.drop first).length by omega,
        slice_memcpy_self _ _ (Nat.zero_le _), List.append_assoc, List.take_append_drop]
  · -- they run over the end, and the new ones lie before them
    have wrapped : masked k r.writeIdx = masked k r.readIdx + r.available - capacity k := by
      rw [place, Nat.mod_eq_sub_mod (by omega), Nat.mod_eq_of_lt (by omega)]
    have copied : r.copyIn data = memcpy r.buf (masked k r.writeIdx) data := by
      rw [copyIn, if_pos (by omega)]
    have front : slice (memcpy r.buf (masked k r.writeIdx) data) 0 (masked k r.writeIdx + data.length) =
        slice r.buf 0 (masked k r.writeIdx) ++ data := by
      have := slice_memcpy_extend r.buf data (show 0 + masked k r.writeIdx ≤ r.buf.length by omega)
      rwa [Nat.zero_add] at this
    rw [slice_append_across _ _ (by omega) (by omega), slice_append_across _ _ (by omega) (by omega), size', copied,
      size, slice_memcpy_right _ _ (by omega) (by omega),
      show r.available + data.length - (capacity k - masked k r.readIdx) = masked k r.writeIdx + data.length by omega,
      front, show r.available - (capacity k - masked k r.readIdx) = masked k r.writeIdx by omega, List.append_assoc]

/-- **An accepted write** appends. -/
theorem write_accepted {data : List UInt8} (fits : r.available + data.length ≤ capacity k) :
    (r.write data).2 = true ∧ (r.write data).1.content = r.content ++ data := by
  unfold write
  rw [if_neg (by omega), dif_neg (by omega)]
  refine ⟨rfl, ?_⟩
  show slice (r.copyIn data ++ r.copyIn data) (masked k r.readIdx)
    (r.writeIdx + BitVec.ofNat N data.length - r.readIdx).toNat = _
  rw [r.filled_write (by omega)]
  exact r.copyIn_content (by omega)

/-- A refused write leaves the bytes as they are. -/
theorem write_refused {data : List UInt8} (full : ¬ r.available + data.length ≤ capacity k) :
    (r.write data).2 = false ∧ (r.write data).1.content = r.content := by
  have : r.available ≤ capacity k := r.filled
  unfold write
  split
  · exact ⟨rfl, rfl⟩
  · rw [dif_pos (by omega)]
    exact ⟨rfl, rfl⟩

/-- **A read** takes from the front. -/
theorem read_content (max : Nat) :
    (r.read max).2 = r.content.take max ∧ (r.read max).1.content = r.content.drop max := by
  have start := r.masked_lt
  have size := r.length_buf
  have full : r.available ≤ capacity k := r.filled
  unfold read
  split
  · rename_i nothing
    rcases nothing with drained | rfl
    · have empty : r.content = [] := List.length_eq_zero_iff.mp (r.length_content.trans drained)
      rw [empty]
      exact ⟨List.take_nil.symm, List.drop_nil.symm⟩
    · exact ⟨List.take_zero.symm, rfl⟩
  have amount : (if max < r.available then max else r.available) = min max r.available := by
    rw [Nat.min_def]
    split <;> split <;> omega
  simp only [amount]
  have within : min max r.available ≤ r.available := Nat.min_le_right ..
  have same : ∀ l : List UInt8, l.length = r.available → l.take max = l.take (min max r.available) ∧
      l.drop max = l.drop (min max r.available) := by
    intro l hl
    rcases Nat.le_total max r.available with le | ge
    · rw [Nat.min_eq_left le]
      exact ⟨rfl, rfl⟩
    · rw [Nat.min_eq_right ge, List.take_of_length_le (by omega), List.take_of_length_le (by omega),
        List.drop_eq_nil_of_le (by omega), List.drop_eq_nil_of_le (by omega)]
      exact ⟨rfl, rfl⟩
  rw [(same _ r.length_content).1, (same _ r.length_content).2]
  refine ⟨r.copyOut_eq within, ?_⟩
  show slice (r.buf ++ r.buf) (masked k (r.readIdx + BitVec.ofNat N _))
    (r.writeIdx - (r.readIdx + BitVec.ofNat N _)).toNat = _
  rw [r.filled_read within, masked_add r.narrow, content, drop_slice]
  generalize min max r.available = n at within
  by_cases low : masked k r.readIdx + n < capacity k
  · rw [Nat.mod_eq_of_lt low]
  · have second : slice (r.buf ++ r.buf) (masked k r.readIdx + n) (r.available - n) =
        slice r.buf (masked k r.readIdx + n - capacity k) (r.available - n) := by
      rw [slice_append_right _ _ (by omega), size]
    rw [second, Nat.mod_eq_sub_mod (by omega), Nat.mod_eq_of_lt (by omega), slice_append _ _ (by omega)]

end ISRRingBuffer

end FloridUsb.Stack
