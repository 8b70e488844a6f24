import FloridUsb.Lib.Bytes

/-!
# The two-region buffer

`RPL::Containers::BipBuffer` (`RPL/Containers/BipBuffer.hpp`). Region A holds the oldest
bytes; region B, if there is one, starts at offset 0 and holds the bytes after A's. A span
is an offset into the buffer array with a size, and has no offset when it is a null span.

`Wf` is the invariant of the three indices. Under it `content`, the bytes of A followed by
those of B, is a FIFO: a write that succeeds appends, `discard` drops from the front, and
the two read spans together are a prefix.
-/

namespace FloridUsb.Rpl
set_option autoImplicit false

open Lib

/-- `std::span<uint8_t>` into the buffer array. -/
structure Span where
  data : Option Nat
  size : Nat
deriving DecidableEq

namespace Span

def null : Span := ⟨none, 0⟩

def at_ (offset size : Nat) : Span := ⟨some offset, size⟩

/-- `subspan(offset, count)`. -/
def subspan (s : Span) (offset count : Nat) : Span := ⟨s.data.map (· + offset), count⟩

/-- The bytes a span covers. -/
def bytes (s : Span) (mem : List UInt8) : List UInt8 :=
  match s.data with
  | some offset => slice mem offset s.size
  | none => []

@[simp] theorem size_at (offset size : Nat) : (at_ offset size).size = size := rfl

theorem length_bytes_at {offset size : Nat} {mem : List UInt8} (h : offset + size ≤ mem.length) :
    ((at_ offset size).bytes mem).length = size := length_slice h

end Span

structure BipBuffer where
  buffer : List UInt8
  regionAStart : Nat := 0
  regionASize : Nat := 0
  regionBSize : Nat := 0

namespace BipBuffer

/-- A zero-initialised buffer. -/
def init (size : Nat) : BipBuffer := { buffer := List.replicate size 0 }

/-- `SIZE`. -/
def size (b : BipBuffer) : Nat := b.buffer.length

def available (b : BipBuffer) : Nat := b.regionASize + b.regionBSize

def getWriteBuffer (b : BipBuffer) : Span :=
  if b.regionBSize > 0 then .at_ b.regionBSize (b.regionAStart - b.regionBSize)
  else
    let aEnd := b.regionAStart + b.regionASize
    if b.size - aEnd > 0 then .at_ aEnd (b.size - aEnd)
    else if b.regionAStart > 0 then .at_ 0 b.regionAStart
    else .null

def advanceWriteIndex (b : BipBuffer) (length : Nat) : BipBuffer × Bool :=
  if length = 0 then (b, true)
  else if b.regionBSize > 0 then
    if b.regionBSize + length > b.regionAStart then (b, false)
    else ({ b with regionBSize := b.regionBSize + length }, true)
  else
    let aEnd := b.regionAStart + b.regionASize
    if length ≤ b.size - aEnd then ({ b with regionASize := b.regionASize + length }, true)
    else if b.regionASize = 0 then ({ b with regionASize := b.regionASize + length }, true)
    else if b.size - aEnd > 0 then
      if length > b.size - aEnd then (b, false)
      else ({ b with regionASize := b.regionASize + length }, true)
    else if length > b.regionAStart then (b, false)
    else ({ b with regionBSize := length }, true)

/-- A `memcpy` to the start of a span. -/
def store (b : BipBuffer) (span : Span) (data : List UInt8) : BipBuffer :=
  match span.data with
  | some offset => { b with buffer := memcpy b.buffer offset data }
  | none => b

def write (b : BipBuffer) (data : List UInt8) : BipBuffer × Bool :=
  if data.length = 0 then (b, true)
  else
    let span := b.getWriteBuffer
    if span.size ≥ data.length then (b.store span data).advanceWriteIndex data.length
    else if b.regionBSize = 0 then
      if b.regionAStart ≥ data.length then
        ({ b with buffer := memcpy b.buffer 0 data, regionBSize := data.length }, true)
      else (b, false)
    else (b, false)

def getContiguousReadBuffer (b : BipBuffer) : Span :=
  if b.regionASize > 0 then .at_ b.regionAStart b.regionASize else .null

def discard (b : BipBuffer) (length : Nat) : BipBuffer :=
  if length = 0 then b
  else if length > b.available then b
  else
    let d : BipBuffer :=
      if length ≤ b.regionASize then
        { b with regionAStart := b.regionAStart + length, regionASize := b.regionASize - length }
      else
        let remainingFromB := length - b.regionASize
        { b with regionAStart := remainingFromB, regionASize := b.regionBSize - remainingFromB, regionBSize := 0 }
    if d.regionASize = 0 then
      if d.regionBSize > 0 then { d with regionAStart := 0, regionASize := d.regionBSize, regionBSize := 0 }
      else { d with regionAStart := 0 }
    else d

def getReadSpans (b : BipBuffer) (offset length : Nat) : Span × Span :=
  if offset + length > b.available then (.null, .null)
  else if offset < b.regionASize then
    let aReadable := b.regionASize - offset
    if length ≤ aReadable then (.at_ (b.regionAStart + offset) length, .null)
    else (.at_ (b.regionAStart + offset) aReadable, .at_ 0 (length - aReadable))
  else (.at_ (offset - b.regionASize) length, .null)

/-- `peek`: the copied bytes, or none if the request is out of range. -/
def peek (b : BipBuffer) (offset length : Nat) : Option (List UInt8) :=
  if offset + length > b.available then none
  else if offset < b.regionASize then
    let readFromA := min length (b.regionASize - offset)
    some (slice b.buffer (b.regionAStart + offset) readFromA ++
      if readFromA < length then slice b.buffer 0 (length - readFromA) else [])
  else some (slice b.buffer (offset - b.regionASize) length)

/-! ### The FIFO behind the regions -/

/-- The unread bytes, oldest first. -/
def content (b : BipBuffer) : List UInt8 :=
  slice b.buffer b.regionAStart b.regionASize ++ slice b.buffer 0 b.regionBSize

/-- The invariant of the indices. -/
structure Wf (b : BipBuffer) : Prop where
  a_fits : b.regionAStart + b.regionASize ≤ b.size
  b_below : b.regionBSize ≤ b.regionAStart
  a_first : b.regionASize = 0 → b.regionAStart = 0 ∧ b.regionBSize = 0

theorem wf_init (size : Nat) : (init size).Wf :=
  ⟨by simp [init, BipBuffer.size], Nat.le_refl _, fun _ => ⟨rfl, rfl⟩⟩

@[simp] theorem content_init (size : Nat) : (init size).content = [] := by simp [init, content]

theorem Wf.length_content {b : BipBuffer} (wf : b.Wf) : b.content.length = b.available := by
  have := wf.a_fits
  have := wf.b_below
  simp only [size] at *
  rw [content, List.length_append, length_slice (by omega), length_slice (by omega), available]

/-- Region A is the front of the unread bytes. -/
theorem Wf.regionA {b : BipBuffer} (wf : b.Wf) :
    slice b.buffer b.regionAStart b.regionASize = b.content.take b.regionASize := by
  rw [content, List.take_left' (length_slice wf.a_fits)]

/-! ### Writing -/

/-- Region A followed by `data` in place. -/
def extendA (b : BipBuffer) (data : List UInt8) : BipBuffer :=
  { b with
    buffer := memcpy b.buffer (b.regionAStart + b.regionASize) data
    regionASize := b.regionASize + data.length }

/-- Region B, possibly a new one, followed by `data` in place. -/
def extendB (b : BipBuffer) (data : List UInt8) : BipBuffer :=
  { b with
    buffer := memcpy b.buffer b.regionBSize data
    regionBSize := b.regionBSize + data.length }

theorem Wf.extendA {b : BipBuffer} (wf : b.Wf) {data : List UInt8} (noB : b.regionBSize = 0) (new : data ≠ [])
    (room : b.regionAStart + b.regionASize + data.length ≤ b.size) :
    (b.extendA data).Wf ∧ (b.extendA data).content = b.content ++ data ∧ (b.extendA data).size = b.size := by
  have size' : (b.extendA data).size = b.size := length_memcpy room
  have pos := List.length_pos_iff.mpr new
  refine ⟨⟨?_, ?_, ?_⟩, ?_, size'⟩
  · rw [size']
    show b.regionAStart + (b.regionASize + data.length) ≤ b.size
    omega
  · show b.regionBSize ≤ b.regionAStart
    omega
  · intro empty
    have : b.regionASize + data.length = 0 := empty
    omega
  · show slice (memcpy b.buffer _ data) b.regionAStart (b.regionASize + data.length) ++ slice _ 0 b.regionBSize = _
    rw [content, noB, slice_memcpy_extend _ _ wf.a_fits, slice_zero, slice_zero, List.append_nil, List.append_nil]

theorem Wf.extendB {b : BipBuffer} (wf : b.Wf) {data : List UInt8}
    (room : b.regionBSize + data.length ≤ b.regionAStart) :
    (b.extendB data).Wf ∧ (b.extendB data).content = b.content ++ data ∧ (b.extendB data).size = b.size := by
  have fits := wf.a_fits
  simp only [size] at fits
  have size' : (b.extendB data).size = b.size := length_memcpy (by omega)
  refine ⟨⟨?_, ?_, ?_⟩, ?_, size'⟩
  · rw [size']
    exact wf.a_fits
  · exact room
  · intro empty
    have start := wf.a_first empty
    refine ⟨start.1, ?_⟩
    show b.regionBSize + data.length = 0
    omega
  · show slice (memcpy b.buffer _ data) b.regionAStart b.regionASize ++
      slice (memcpy b.buffer _ data) 0 (b.regionBSize + data.length) = _
    have front : slice (memcpy b.buffer b.regionBSize data) 0 (b.regionBSize + data.length) =
        slice b.buffer 0 b.regionBSize ++ data := by
      have := slice_memcpy_extend b.buffer data (show 0 + b.regionBSize ≤ b.buffer.length by omega)
      rwa [Nat.zero_add] at this
    rw [content, front, slice_memcpy_right _ _ room (by omega), List.append_assoc]

/-- What a write into the write span does, once committed: it extends A up to the end of
the buffer, and B from there on. -/
theorem Wf.advance_cases {b : BipBuffer} (wf : b.Wf) {data : List UInt8} (new : data ≠ [])
    (room : data.length ≤ b.getWriteBuffer.size) :
    (b.regionBSize = 0 ∧ b.regionAStart + b.regionASize + data.length ≤ b.size ∧
      (b.store b.getWriteBuffer data).advanceWriteIndex data.length = (b.extendA data, true)) ∨
    (b.regionBSize + data.length ≤ b.regionAStart ∧
      (b.regionBSize = 0 → b.size = b.regionAStart + b.regionASize) ∧
      (b.store b.getWriteBuffer data).advanceWriteIndex data.length = (b.extendB data, true)) := by
  have pos := List.length_pos_iff.mpr new
  have fits := wf.a_fits
  rcases Nat.eq_zero_or_pos b.regionBSize with noB | hasB
  swap
  · have span : b.getWriteBuffer = .at_ b.regionBSize (b.regionAStart - b.regionBSize) := by
      simp only [getWriteBuffer, gt_iff_lt, hasB, if_true]
    rw [span] at room ⊢
    simp only [Span.at_] at room
    refine .inr ⟨by omega, by omega, ?_⟩
    simp only [advanceWriteIndex, store, Span.at_, gt_iff_lt, hasB, if_true]
    rw [if_neg (by omega), if_neg (by omega)]
    rfl
  by_cases atEnd : b.size - (b.regionAStart + b.regionASize) > 0
  · have span : b.getWriteBuffer = .at_ (b.regionAStart + b.regionASize)
        (b.size - (b.regionAStart + b.regionASize)) := by
      simp only [getWriteBuffer, noB, Nat.lt_irrefl, if_false, atEnd, if_true]
    rw [span] at room ⊢
    replace room : b.regionAStart + b.regionASize + data.length ≤ b.size := by
      simp only [Span.at_] at room
      omega
    have stored : (b.store (.at_ (b.regionAStart + b.regionASize) (b.size - (b.regionAStart + b.regionASize)))
        data).size = b.size := length_memcpy room
    refine .inl ⟨noB, room, ?_⟩
    rw [advanceWriteIndex, stored]
    simp only [store, Span.at_, noB]
    rw [if_neg (by omega), if_neg (by omega), if_pos (by omega)]
    simp only [BipBuffer.extendA, noB]
  by_cases start : b.regionAStart > 0
  · have span : b.getWriteBuffer = .at_ 0 b.regionAStart := by
      simp only [getWriteBuffer, noB, Nat.lt_irrefl, if_false, atEnd, start, if_true]
    rw [span] at room ⊢
    simp only [Span.at_] at room
    have someA : b.regionASize ≠ 0 := fun h => by have := wf.a_first h; omega
    have stored : (b.store (.at_ 0 b.regionAStart) data).size = b.size :=
      length_memcpy (by simp only [size] at fits; omega)
    refine .inr ⟨by omega, fun _ => by omega, ?_⟩
    rw [advanceWriteIndex, stored]
    simp only [store, Span.at_, noB]
    rw [if_neg (by omega), if_neg (by omega), if_neg (by omega), if_neg someA, if_neg atEnd, if_neg (by omega)]
    simp only [BipBuffer.extendB, noB, Nat.zero_add]
  · have span : b.getWriteBuffer = .null := by
      simp only [getWriteBuffer, noB, Nat.lt_irrefl, if_false, atEnd, start]
    rw [span] at room
    exact absurd room (by simp only [Span.null]; omega)

/-- **A committed write** into the write span appends its bytes. -/
theorem Wf.advance {b : BipBuffer} (wf : b.Wf) {data : List UInt8} (room : data.length ≤ b.getWriteBuffer.size) :
    let r := (b.store b.getWriteBuffer data).advanceWriteIndex data.length
    r.2 = true ∧ r.1.Wf ∧ r.1.content = b.content ++ data ∧ r.1.size = b.size := by
  rcases eq_or_ne data [] with rfl | new
  · have same : b.store b.getWriteBuffer [] = b := by
      unfold store
      split
      · simp only [memcpy, List.append_nil, List.length_nil, Nat.add_zero, List.take_append_drop]
      · rfl
    rw [same]
    exact ⟨rfl, wf, (List.append_nil _).symm, rfl⟩
  · rcases wf.advance_cases new room with ⟨noB, inA, done⟩ | ⟨inB, -, done⟩
    · rw [done]
      exact ⟨rfl, wf.extendA noB new inA⟩
    · rw [done]
      exact ⟨rfl, wf.extendB inB⟩

/-- What a copying write needs: room in the write span, or else before region A. -/
def Fits (b : BipBuffer) (length : Nat) : Prop :=
  length ≤ b.getWriteBuffer.size ∨ (b.regionBSize = 0 ∧ length ≤ b.regionAStart)

/-- What a copying write does when it fits: it extends A, or else B. A new B is opened only
where the data would run over the end of the buffer. -/
theorem Wf.write_cases {b : BipBuffer} (wf : b.Wf) {data : List UInt8} (new : data ≠ []) (fits : b.Fits data.length) :
    (b.regionBSize = 0 ∧ b.regionAStart + b.regionASize + data.length ≤ b.size ∧
      b.write data = (b.extendA data, true)) ∨
    (b.regionBSize + data.length ≤ b.regionAStart ∧
      (b.regionBSize = 0 → b.size < b.regionAStart + b.regionASize + data.length) ∧
      b.write data = (b.extendB data, true)) := by
  have pos := List.length_pos_iff.mpr new
  by_cases room : data.length ≤ b.getWriteBuffer.size
  · have committed : b.write data = (b.store b.getWriteBuffer data).advanceWriteIndex data.length := by
      unfold BipBuffer.write
      rw [if_neg (by omega)]
      simp only [ge_iff_le, room, if_true]
    rw [committed]
    rcases wf.advance_cases new room with ⟨noB, inA, done⟩ | ⟨inB, atEnd, done⟩
    · exact .inl ⟨noB, inA, done⟩
    · exact .inr ⟨inB, fun noB => by have := atEnd noB; omega, done⟩
  · obtain ⟨noB, before⟩ := fits.resolve_left room
    refine .inr ⟨by omega, fun _ => ?_, ?_⟩
    · simp only [getWriteBuffer, noB, Nat.lt_irrefl, if_false] at room
      split at room
      · simp only [Span.at_] at room
        omega
      · omega
    · unfold BipBuffer.write
      rw [if_neg (by omega)]
      simp only [ge_iff_le, room, if_false, noB, before, if_true, BipBuffer.extendB, Nat.zero_add]

/-- **A copying write** appends its bytes if it fits. -/
theorem Wf.write {b : BipBuffer} (wf : b.Wf) {data : List UInt8} (fits : b.Fits data.length) :
    (b.write data).2 = true ∧ (b.write data).1.Wf ∧ (b.write data).1.content = b.content ++ data ∧
      (b.write data).1.size = b.size := by
  rcases eq_or_ne data [] with rfl | new
  · exact ⟨rfl, wf, (List.append_nil _).symm, rfl⟩
  · rcases wf.write_cases new fits with ⟨noB, inA, done⟩ | ⟨inB, -, done⟩
    · rw [done]
      exact ⟨rfl, wf.extendA noB new inA⟩
    · rw [done]
      exact ⟨rfl, wf.extendB inB⟩

/-- Region B is only there if region A ends within `reach` bytes of the end of the buffer. -/
def Near (reach : Nat) (b : BipBuffer) : Prop :=
  b.regionBSize > 0 → b.size ≤ b.regionAStart + b.regionASize + reach

/-- Short copying writes open region B only near the end. -/
theorem Near.write {b : BipBuffer} {reach : Nat} (near : b.Near reach) (wf : b.Wf) {data : List UInt8}
    (short : data.length ≤ reach + 1) (fits : b.Fits data.length) : (b.write data).1.Near reach := by
  rcases eq_or_ne data [] with rfl | new
  · exact near
  · rcases wf.write_cases new fits with ⟨noB, inA, done⟩ | ⟨inB, behind, done⟩
    · rw [done]
      intro hasB
      exact absurd noB (Nat.pos_iff_ne_zero.mp hasB)
    · rw [done]
      intro _
      rw [(wf.extendB inB).2.2]
      show b.size ≤ b.regionAStart + b.regionASize + reach
      rcases Nat.eq_zero_or_pos b.regionBSize with noB | hasB
      · have := behind noB
        omega
      · exact near hasB

/-- With region B only near the end, a quarter-filled buffer of four chunks takes a chunk. -/
theorem Near.fits {b : BipBuffer} {reach : Nat} (near : b.Near reach) (wf : b.Wf) {length : Nat}
    (short : length ≤ reach + 1) (large : 4 * (reach + 1) ≤ b.size) (quarter : 4 * b.available ≤ b.size) :
    b.Fits length := by
  have := wf.a_fits
  have := wf.b_below
  simp only [available] at quarter
  unfold Fits
  rcases Nat.eq_zero_or_pos b.regionBSize with noB | hasB
  swap
  · have := near hasB
    simp only [getWriteBuffer, gt_iff_lt, hasB, if_true, Span.size_at]
    omega
  by_cases before : length ≤ b.regionAStart
  · exact .inr ⟨noB, before⟩
  · have atEnd : b.size - (b.regionAStart + b.regionASize) > 0 := by omega
    simp only [getWriteBuffer, noB, Nat.lt_irrefl, if_false, atEnd, if_true, Span.size_at]
    omega

/-- A copying write that does not fit is refused, and changes nothing. -/
theorem write_refused {b : BipBuffer} {data : List UInt8} (full : ¬ b.Fits data.length) :
    b.write data = (b, false) := by
  simp only [Fits, not_or, not_and] at full
  unfold BipBuffer.write
  rw [if_neg (by omega)]
  simp only [ge_iff_le, full.1, if_false]
  split
  · rename_i noB
    rw [if_neg (full.2 noB)]
  · rfl

/-! ### Reading -/

/-- `discard` drops from the front. Region B, if it is still there, has not moved, and
region A ends where it ended. -/
theorem Wf.discard {b : BipBuffer} (wf : b.Wf) {length : Nat} (enough : length ≤ b.available) :
    (b.discard length).Wf ∧ (b.discard length).content = b.content.drop length ∧
      (b.discard length).buffer = b.buffer ∧
      ((b.discard length).regionBSize > 0 → (b.discard length).regionBSize = b.regionBSize ∧
        (b.discard length).regionAStart + (b.discard length).regionASize = b.regionAStart + b.regionASize) := by
  have fits := wf.a_fits
  have below := wf.b_below
  simp only [size] at fits
  have lengthA : (slice b.buffer b.regionAStart b.regionASize).length = b.regionASize := length_slice fits
  rcases Nat.eq_zero_or_pos length with rfl | pos
  · have same : b.discard 0 = b := if_pos rfl
    rw [same]
    exact ⟨wf, rfl, rfl, fun _ => ⟨rfl, rfl⟩⟩
  have inRange : ¬ length > b.available := by omega
  simp only [available] at enough
  by_cases less : length < b.regionASize
  · have done : b.discard length =
        { b with regionAStart := b.regionAStart + length, regionASize := b.regionASize - length } := by
      simp only [BipBuffer.discard, inRange, Nat.le_of_lt less, if_true, if_false]
      rw [if_neg (by omega), if_neg (by omega)]
    rw [done]
    refine ⟨⟨?_, ?_, ?_⟩, ?_, rfl, fun _ => ⟨rfl, ?_⟩⟩
    · show b.regionAStart + length + (b.regionASize - length) ≤ b.buffer.length
      omega
    · show b.regionBSize ≤ b.regionAStart + length
      omega
    · intro empty
      have : b.regionASize - length = 0 := empty
      omega
    · rw [content, content, List.drop_append_of_le_length (by omega), drop_slice]
    · show b.regionAStart + length + (b.regionASize - length) = _
      omega
  -- from here on region A is used up, and what is left of B becomes A
  have done : b.discard length = { b with
      regionAStart := if b.regionASize + b.regionBSize = length then 0 else length - b.regionASize
      regionASize := b.regionASize + b.regionBSize - length, regionBSize := 0 } := by
    have nonzero : ¬ length = 0 := by omega
    by_cases all : length = b.regionASize
    · have within : length ≤ b.regionASize := by omega
      have none : b.regionASize - length = 0 := by omega
      simp only [BipBuffer.discard, nonzero, inRange, within, none, if_true, if_false]
      split
      · rw [if_neg (by omega)]
        congr 1 <;> omega
      · rw [if_pos (by omega)]
        congr 1 <;> omega
    · have beyond : ¬ length ≤ b.regionASize := by omega
      simp only [BipBuffer.discard, nonzero, inRange, beyond, Nat.lt_irrefl, if_false]
      split
      · rw [if_pos (by omega)]
        congr 1
        omega
      · rw [if_neg (by omega)]
        congr 1
        omega
  rw [done]
  refine ⟨⟨?_, ?_, ?_⟩, ?_, rfl, fun hasB => absurd hasB (Nat.lt_irrefl 0)⟩
  · show (if b.regionASize + b.regionBSize = length then 0 else length - b.regionASize) +
      (b.regionASize + b.regionBSize - length) ≤ b.buffer.length
    split <;> omega
  · exact Nat.zero_le _
  · intro empty
    have : b.regionASize + b.regionBSize - length = 0 := empty
    exact ⟨if_pos (by omega), rfl⟩
  · have rest : b.content.drop length = slice b.buffer (length - b.regionASize)
      (b.regionBSize - (length - b.regionASize)) := by
      rw [content, List.drop_append, lengthA, List.drop_eq_nil_of_le (by omega), List.nil_append, drop_slice,
        Nat.zero_add]
    rw [rest, content, slice_zero, List.append_nil]
    show slice b.buffer (if _ then 0 else _) (b.regionASize + b.regionBSize - length) = _
    split
    · rw [show b.regionASize + b.regionBSize - length = 0 by omega,
        show b.regionBSize - (length - b.regionASize) = 0 by omega, slice_zero, slice_zero]
    · congr 1
      omega

/-- The read spans of a range: in one piece if it lies in A, else A's end and B's front. -/
theorem Wf.getReadSpans_front {b : BipBuffer} (wf : b.Wf) {length : Nat} (pos : 0 < length)
    (enough : length ≤ b.available) :
    b.getReadSpans 0 length =
      if length ≤ b.regionASize then (.at_ b.regionAStart length, .null)
      else (.at_ b.regionAStart b.regionASize, .at_ 0 (length - b.regionASize)) := by
  have someA : 0 < b.regionASize := by
    apply Nat.pos_of_ne_zero
    intro empty
    have := wf.a_first empty
    simp only [available] at enough
    omega
  simp only [getReadSpans, Nat.zero_add, Nat.add_zero, Nat.sub_zero, someA, if_true]
  rw [if_neg (by omega)]

/-- The read spans together are a prefix of the unread bytes. -/
theorem Wf.getReadSpans_bytes {b : BipBuffer} (wf : b.Wf) {length : Nat} (pos : 0 < length)
    (enough : length ≤ b.available) :
    (b.getReadSpans 0 length).1.bytes b.buffer ++ (b.getReadSpans 0 length).2.bytes b.buffer =
      b.content.take length := by
  have lengthA : (slice b.buffer b.regionAStart b.regionASize).length = b.regionASize := length_slice wf.a_fits
  simp only [available] at enough
  rw [wf.getReadSpans_front pos enough, content]
  split
  · rename_i inA
    rw [List.take_append_of_le_length (by omega), take_slice _ _ inA]
    simp only [Span.bytes, Span.at_, Span.null, List.append_nil]
  · rw [List.take_append, lengthA, List.take_of_length_le (by omega), take_slice _ _ (by omega)]
    rfl

/-- `peek` copies the same prefix. -/
theorem Wf.peek_front {b : BipBuffer} (wf : b.Wf) {length : Nat} (pos : 0 < length) (enough : length ≤ b.available) :
    b.peek 0 length = some (b.content.take length) := by
  have lengthA : (slice b.buffer b.regionAStart b.regionASize).length = b.regionASize := length_slice wf.a_fits
  have someA : 0 < b.regionASize := by
    apply Nat.pos_of_ne_zero
    intro empty
    have := wf.a_first empty
    simp only [available] at enough
    omega
  simp only [peek, Nat.zero_add, Nat.add_zero, Nat.sub_zero, someA, if_true]
  rw [if_neg (by omega), content]
  simp only [available] at enough
  by_cases inA : length ≤ b.regionASize
  · rw [Nat.min_eq_left inA, if_neg (Nat.lt_irrefl _), List.append_nil, List.take_append_of_le_length (by omega),
      take_slice _ _ inA]
  · rw [Nat.min_eq_right (by omega), if_pos (by omega), List.take_append, lengthA, List.take_of_length_le (by omega),
      take_slice _ _ (by omega)]

end BipBuffer

end FloridUsb.Rpl
