import FloridUsb.Lib.BoundedFifo
import FloridUsb.Rpl.BipBuffer

/-!
# The two-region buffer as a queue

The rest of `BipBuffer.hpp`: the writes that are forced to the start of the buffer, `read`,
`clear` and the queries. Over any run in which each span is committed by its own function, the
buffer is a bounded FIFO queue of bytes (`bip_refines_fifo`), whichever of its three ways to write
is taken and wherever the regions lie, as long as no commit is larger than the whole buffer.

Two things that the functions accept are left out. `advance_write_index` does not check what an
empty buffer is told that it has been given (`advance_beyond`). And it commits the tail of region
A, not what has been written, if the data went to the span of `get_write_buffer_force_wrap`.
-/

namespace FloridUsb.Rpl
set_option autoImplicit false

open Lib

namespace BipBuffer

def getWriteBufferForceWrap (b : BipBuffer) : Span :=
  if b.regionBSize > 0 then b.getWriteBuffer
  else if b.regionAStart > 0 then .at_ 0 b.regionAStart
  else .null

def advanceWriteIndexWrapped (b : BipBuffer) (length : Nat) : BipBuffer × Bool :=
  if b.regionBSize > 0 then b.advanceWriteIndex length
  else if length > b.regionAStart then (b, false)
  else ({ b with regionBSize := length }, true)

def space (b : BipBuffer) : Nat :=
  if b.regionBSize > 0 then b.regionAStart - b.regionBSize
  else (b.size - (b.regionAStart + b.regionASize)) + b.regionAStart

def full (b : BipBuffer) : Bool := b.space = 0

def empty (b : BipBuffer) : Bool := b.available = 0

def clear (b : BipBuffer) : BipBuffer := { b with regionAStart := 0, regionASize := 0, regionBSize := 0 }

/-- `read`: the copied bytes, or none if there are not as many. -/
def read (b : BipBuffer) (length : Nat) : BipBuffer × Option (List UInt8) :=
  match b.peek 0 length with
  | none => (b, none)
  | some data => (b.discard length, some data)

/-! ### Reading at any offset -/

section Reading

variable {b : BipBuffer} {offset length : Nat}

/-- The two spans together are the requested range of the unread bytes. -/
theorem Wf.getReadSpans_content (wf : b.Wf) (inside : offset + length ≤ b.available) :
    (b.getReadSpans offset length).1.bytes b.buffer ++ (b.getReadSpans offset length).2.bytes b.buffer =
      slice b.content offset length := by
  have lengthA : (slice b.buffer b.regionAStart b.regionASize).length = b.regionASize := length_slice wf.a_fits
  simp only [available] at inside
  rw [content, getReadSpans, available, if_neg (by omega)]
  by_cases inA : offset < b.regionASize
  · rw [if_pos inA]
    by_cases onePiece : length ≤ b.regionASize - offset
    · rw [if_pos onePiece, slice_append _ _ (by omega), slice_slice _ _ (by omega)]
      exact List.append_nil _
    · rw [if_neg onePiece, slice_append_across _ _ (by omega) (by omega), lengthA, slice_slice _ _ (by omega),
        slice_slice _ _ (by omega)]
      rfl
  · rw [if_neg inA, slice_append_right _ _ (by omega), lengthA, slice_slice _ _ (by omega), Nat.zero_add]
    exact List.append_nil _

theorem Wf.peek_content (wf : b.Wf) (inside : offset + length ≤ b.available) :
    b.peek offset length = some (slice b.content offset length) := by
  have spans := wf.getReadSpans_content inside
  rw [← spans, peek, getReadSpans, if_neg (Nat.not_lt.mpr inside), if_neg (Nat.not_lt.mpr inside)]
  by_cases inA : offset < b.regionASize
  · rw [if_pos inA, if_pos inA]
    by_cases onePiece : length ≤ b.regionASize - offset
    · rw [if_pos onePiece, Nat.min_eq_left onePiece]
      dsimp only
      rw [if_neg (Nat.lt_irrefl _)]
      rfl
    · rw [if_neg onePiece, Nat.min_eq_right (by omega)]
      dsimp only
      rw [if_pos (by omega)]
      rfl
  · rw [if_neg inA, if_neg inA]
    exact congrArg some (List.append_nil _).symm

theorem read_refused (beyond : b.available < length) : b.read length = (b, none) := by
  rw [read, peek, if_pos (by omega)]

theorem Wf.read (wf : b.Wf) (inside : length ≤ b.available) :
    b.read length = (b.discard length, some (b.content.take length)) := by
  rw [BipBuffer.read, wf.peek_content (by omega)]
  rfl

theorem discard_refused (beyond : b.available < length) : b.discard length = b := by
  rw [discard, if_neg (by omega), if_pos beyond]

theorem wf_clear (b : BipBuffer) : b.clear.Wf ∧ b.clear.content = [] :=
  ⟨⟨Nat.zero_le _, Nat.le_refl _, fun _ => ⟨rfl, rfl⟩⟩, rfl⟩

end Reading

/-! ### Writing past the checks -/

section Writing

variable {b : BipBuffer}

/-- The write span: behind B, behind A, or before A. -/
theorem Wf.getWriteBuffer_cases (wf : b.Wf) :
    (0 < b.regionBSize ∧ b.getWriteBuffer = .at_ b.regionBSize (b.regionAStart - b.regionBSize)) ∨
    (b.regionBSize = 0 ∧ b.regionAStart + b.regionASize < b.size ∧
      b.getWriteBuffer = .at_ (b.regionAStart + b.regionASize) (b.size - (b.regionAStart + b.regionASize))) ∨
    (b.regionBSize = 0 ∧ b.regionAStart + b.regionASize = b.size ∧ 0 < b.regionAStart ∧
      b.getWriteBuffer = .at_ 0 b.regionAStart) ∨
    (b.regionBSize = 0 ∧ b.regionASize = b.size ∧ b.regionAStart = 0 ∧ b.getWriteBuffer = .null) := by
  have fits := wf.a_fits
  unfold getWriteBuffer
  split
  · rename_i hasB
    exact .inl ⟨hasB, rfl⟩
  dsimp only
  split
  · exact .inr (.inl ⟨by omega, by omega, rfl⟩)
  split
  · exact .inr (.inr (.inl ⟨by omega, by omega, by omega, rfl⟩))
  · exact .inr (.inr (.inr ⟨by omega, by omega, by omega, rfl⟩))

/-- `advance_write_index` refuses what the write span does not hold, but for an empty buffer. -/
theorem Wf.advance_beyond (wf : b.Wf) {length : Nat} (beyond : b.getWriteBuffer.size < length) :
    b.advanceWriteIndex length =
      if b.available = 0 then ({ b with regionASize := length }, true) else (b, false) := by
  have first := wf.a_first
  rcases wf.getWriteBuffer_cases with ⟨hasB, span⟩ | ⟨noB, tail, span⟩ | ⟨noB, tail, start, span⟩ |
    ⟨noB, tail, start, span⟩ <;>
    rw [span] at beyond <;> simp only [Span.at_, Span.null] at beyond <;>
    rw [advanceWriteIndex, available, if_neg (by omega)]
  · rw [if_pos hasB, if_pos (by omega), if_neg (by omega)]
  · rw [if_neg (by omega), if_neg (by omega)]
    by_cases none : b.regionASize = 0
    · rw [if_pos none, if_pos (by omega), none, Nat.zero_add]
    · rw [if_neg none, if_pos (by omega), if_pos (by omega), if_neg (by omega)]
  · rw [if_neg (by omega), if_neg (by omega), if_neg (by omega), if_neg (by omega), if_pos (by omega),
      if_neg (by omega)]
  · rw [if_neg (by omega), if_neg (by omega)]
    by_cases none : b.regionASize = 0
    · rw [if_pos none, if_pos (by omega), none, Nat.zero_add]
    · rw [if_neg none, if_neg (by omega), if_pos (by omega), if_neg (by omega)]

/-- A write beside both regions changes nothing that can be read. -/
theorem Wf.store_beside (wf : b.Wf) {offset : Nat} {data : List UInt8} (inside : offset + data.length ≤ b.size)
    (besideA : offset + data.length ≤ b.regionAStart ∨ b.regionAStart + b.regionASize ≤ offset)
    (besideB : b.regionBSize ≤ offset) :
    let s := { b with buffer := memcpy b.buffer offset data }
    s.Wf ∧ s.content = b.content ∧ s.size = b.size := by
  intro s
  have size : s.size = b.size := length_memcpy inside
  have room : offset ≤ b.buffer.length := Nat.le_trans (Nat.le_add_right _ _) inside
  have regionA : slice (memcpy b.buffer offset data) b.regionAStart b.regionASize =
      slice b.buffer b.regionAStart b.regionASize := by
    cases besideA with
    | inl before => exact slice_memcpy_right _ _ before room
    | inr behind => exact slice_memcpy_left _ _ behind room
  refine ⟨⟨?_, wf.b_below, wf.a_first⟩, ?_, size⟩
  · rw [size]
    exact wf.a_fits
  · show slice (memcpy b.buffer offset data) b.regionAStart b.regionASize ++ slice _ 0 b.regionBSize = _
    rw [content, regionA, slice_memcpy_left _ _ (by omega) room]

/-- Bytes stored into the write span are not seen before they are committed. -/
theorem Wf.store_span (wf : b.Wf) {data : List UInt8} (room : data.length ≤ b.getWriteBuffer.size) :
    let s := b.store b.getWriteBuffer data
    s.Wf ∧ s.content = b.content ∧ s.size = b.size ∧ s.available = b.available ∧
      s.getWriteBuffer = b.getWriteBuffer := by
  intro s
  have fits := wf.a_fits
  have below := wf.b_below
  have shape : s = b ∨ ∃ offset, s = { b with buffer := memcpy b.buffer offset data } ∧ offset + data.length ≤ b.size ∧
      (offset + data.length ≤ b.regionAStart ∨ b.regionAStart + b.regionASize ≤ offset) ∧ b.regionBSize ≤ offset := by
    show b.store b.getWriteBuffer data = b ∨ ∃ offset, b.store b.getWriteBuffer data = _ ∧ _
    rcases wf.getWriteBuffer_cases with ⟨hasB, span⟩ | ⟨noB, tail, span⟩ | ⟨noB, tail, start, span⟩ |
      ⟨-, -, -, span⟩ <;>
      rw [span] at room ⊢ <;> simp only [Span.at_, Span.null] at room
    · exact .inr ⟨b.regionBSize, rfl, by omega, by omega, by omega⟩
    · exact .inr ⟨b.regionAStart + b.regionASize, rfl, by omega, by omega, by omega⟩
    · exact .inr ⟨0, rfl, by omega, by omega, by omega⟩
    · exact .inl rfl
  rcases shape with same | ⟨offset, stored, inside, besideA, besideB⟩
  · rw [same]
    exact ⟨wf, rfl, rfl, rfl, rfl⟩
  · obtain ⟨kept, same, size⟩ := wf.store_beside inside besideA besideB
    rw [← stored] at kept same size
    refine ⟨kept, same, size, by rw [stored]; rfl, ?_⟩
    rw [getWriteBuffer, getWriteBuffer, size, stored]

/-- Nor are bytes stored at the start of the buffer. -/
theorem Wf.store_wrapped (wf : b.Wf) {data : List UInt8} (room : data.length ≤ b.getWriteBufferForceWrap.size) :
    let s := b.store b.getWriteBufferForceWrap data
    s.Wf ∧ s.content = b.content ∧ s.size = b.size ∧ s.getWriteBufferForceWrap = b.getWriteBufferForceWrap := by
  have fits := wf.a_fits
  by_cases hasB : b.regionBSize > 0
  · have span : b.getWriteBufferForceWrap = b.getWriteBuffer := if_pos hasB
    rw [span] at room ⊢
    obtain ⟨kept, same, size, -, write⟩ := wf.store_span room
    refine ⟨kept, same, size, ?_⟩
    have still : (b.store b.getWriteBuffer data).regionBSize = b.regionBSize := by
      unfold store
      split <;> rfl
    rw [getWriteBufferForceWrap, still, if_pos hasB, write]
  · by_cases start : b.regionAStart > 0
    · have span : b.getWriteBufferForceWrap = .at_ 0 b.regionAStart := by
        rw [getWriteBufferForceWrap, if_neg hasB, if_pos start]
      rw [span] at room ⊢
      simp only [Span.at_] at room
      obtain ⟨kept, same, size⟩ := wf.store_beside (show 0 + data.length ≤ b.size by omega) (.inl (by omega)) (by omega)
      exact ⟨kept, same, size, (if_neg hasB).trans (if_pos start)⟩
    · have span : b.getWriteBufferForceWrap = .null := by
        rw [getWriteBufferForceWrap, if_neg hasB, if_neg start]
      rw [span]
      exact ⟨wf, rfl, rfl, span⟩

/-- A wrapped commit opens region B. -/
theorem advanceWrapped_new (noB : b.regionBSize = 0) {length : Nat} (room : length ≤ b.regionAStart) :
    b.advanceWriteIndexWrapped length = ({ b with regionBSize := length }, true) := by
  rw [advanceWriteIndexWrapped, if_neg (by omega), if_neg (by omega)]

/-- A write to the start of the buffer, once committed, appends its bytes. -/
theorem Wf.advanceWrapped (wf : b.Wf) {data : List UInt8} (room : data.length ≤ b.getWriteBufferForceWrap.size) :
    let r := (b.store b.getWriteBufferForceWrap data).advanceWriteIndexWrapped data.length
    r.2 = true ∧ r.1.Wf ∧ r.1.content = b.content ++ data ∧ r.1.size = b.size := by
  by_cases hasB : b.regionBSize > 0
  · have span : b.getWriteBufferForceWrap = b.getWriteBuffer := if_pos hasB
    rw [span] at room ⊢
    have committed := wf.advance room
    have still : (b.store b.getWriteBuffer data).regionBSize = b.regionBSize := by
      unfold store
      split <;> rfl
    rw [advanceWriteIndexWrapped, still, if_pos hasB]
    exact committed
  have noB : b.regionBSize = 0 := by omega
  by_cases start : b.regionAStart > 0
  · have span : b.getWriteBufferForceWrap = .at_ 0 b.regionAStart := by
      rw [getWriteBufferForceWrap, if_neg hasB, if_pos start]
    rw [span] at room ⊢
    simp only [Span.at_] at room
    have done : (b.store (.at_ 0 b.regionAStart) data).advanceWriteIndexWrapped data.length =
        (b.extendB data, true) := by
      have opened := advanceWrapped_new (b := { b with buffer := memcpy b.buffer 0 data }) noB room
      simp only [BipBuffer.extendB, noB, Nat.zero_add]
      exact opened
    rw [done]
    exact ⟨rfl, wf.extendB (by omega)⟩
  · have span : b.getWriteBufferForceWrap = .null := by
      rw [getWriteBufferForceWrap, if_neg hasB, if_neg start]
    rw [span] at room ⊢
    have empty : data = [] := List.length_eq_zero_iff.mp (Nat.le_zero.mp room)
    subst empty
    have done : (b.store .null []).advanceWriteIndexWrapped 0 = (b, true) := by
      refine (advanceWrapped_new noB (Nat.zero_le _)).trans ?_
      rw [← noB]
    rw [List.length_nil, done, List.append_nil]
    exact ⟨rfl, wf, rfl, rfl⟩

/-- The wrapped commit refuses what its span does not hold. -/
theorem Wf.advanceWrapped_beyond (wf : b.Wf) {length : Nat} (beyond : b.getWriteBufferForceWrap.size < length) :
    b.advanceWriteIndexWrapped length = (b, false) := by
  have first := wf.a_first
  unfold getWriteBufferForceWrap at beyond
  unfold advanceWriteIndexWrapped
  by_cases hasB : b.regionBSize > 0
  · rw [if_pos hasB] at beyond ⊢
    rw [wf.advance_beyond beyond, available, if_neg (by omega)]
  · rw [if_neg hasB] at beyond ⊢
    split at beyond
    · simp only [Span.at_] at beyond
      rw [if_pos (by omega)]
    · simp only [Span.null] at beyond
      rw [if_pos (by omega)]

end Writing

/-! ### The queue -/

theorem Wf.available_le {b : BipBuffer} (wf : b.Wf) : b.available ≤ b.size := by
  have fits := wf.a_fits
  have below := wf.b_below
  rw [available]
  omega

/-- The write span of an empty buffer is the buffer. -/
theorem Wf.span_of_empty {b : BipBuffer} (wf : b.Wf) (none : b.available = 0) : b.getWriteBuffer.size = b.size := by
  rw [available] at none
  have start := (wf.a_first (by omega)).1
  rcases wf.getWriteBuffer_cases with ⟨hasB, -⟩ | ⟨-, -, span⟩ | ⟨-, -, some_, -⟩ | ⟨-, whole, -, span⟩
  · omega
  · rw [span]
    simp only [Span.at_]
    omega
  · omega
  · rw [span]
    simp only [Span.null]
    omega

/-- There is nothing to write into if and only if the buffer is full. -/
theorem Wf.full_iff {b : BipBuffer} (wf : b.Wf) : b.full = true ↔ b.getWriteBuffer.size = 0 := by
  have fits := wf.a_fits
  rw [full, decide_eq_true_eq, space]
  rcases wf.getWriteBuffer_cases with ⟨hasB, span⟩ | ⟨noB, tail, span⟩ | ⟨noB, tail, start, span⟩ |
    ⟨noB, tail, start, span⟩ <;>
    rw [span]
  · rw [if_pos hasB]
    rfl
  · rw [if_neg (by omega), Span.size_at]
    omega
  · rw [if_neg (by omega), Span.size_at]
    omega
  · rw [if_neg (by omega)]
    exact iff_of_true (by omega) rfl

end BipBuffer

/-- An operation. A span is got, written and committed at once: of the data as much as the span takes is
stored, and all of it is committed, by the function that goes with the span. `advance_write_index` on
the span of `get_write_buffer_force_wrap` is no operation. -/
inductive BipOp where
  | write (data : List UInt8)
  /-- `get_write_buffer` and `advance_write_index`. -/
  | dma (data : List UInt8)
  /-- `get_write_buffer_force_wrap` and `advance_write_index_wrapped`. -/
  | dmaWrapped (data : List UInt8)
  | read (length : Nat)
  | discard (length : Nat)
  | clear

/-- What `advance_write_index` is told is no more than a buffer of `n` bytes holds. -/
def BipOp.Fits (n : Nat) : BipOp → Prop
  | .dma data => data.length ≤ n
  | .write _ | .dmaWrapped _ | .read _ | .discard _ | .clear => True

inductive BipEvent where
  | stored (data : List UInt8)
  | removed (data : List UInt8)

def BipEvent.effect : BipEvent → Option (FifoOp UInt8)
  | .stored data => some (.push data)
  | .removed data => some (.pop data)

def BipBuffer.step (b : BipBuffer) : BipOp → BipBuffer × List BipEvent
  | .write data => ((b.write data).1, if (b.write data).2 then [.stored data] else [])
  | .dma data =>
    let s := b.store b.getWriteBuffer (data.take b.getWriteBuffer.size)
    ((s.advanceWriteIndex data.length).1, if (s.advanceWriteIndex data.length).2 then [.stored data] else [])
  | .dmaWrapped data =>
    let s := b.store b.getWriteBufferForceWrap (data.take b.getWriteBufferForceWrap.size)
    ((s.advanceWriteIndexWrapped data.length).1,
      if (s.advanceWriteIndexWrapped data.length).2 then [.stored data] else [])
  | .read length => ((b.read length).1, ((b.read length).2.map .removed).toList)
  | .discard length => (b.discard length, if length ≤ b.available then [.removed (b.content.take length)] else [])
  | .clear => (b.clear, [.removed b.content])

/-- A buffer as a machine. -/
def bipBuffer : Machine BipBuffer BipOp BipEvent where
  step := BipBuffer.step

section Queue

variable {n : Nat} {b c : BipBuffer}

theorem fifo_stored {data : List UInt8} (wf : c.Wf) (size : c.size = n) (content : c.content = b.content ++ data) :
    FifoRun n b.content ([BipEvent.stored data].filterMap BipEvent.effect) c.content := by
  have bound := wf.available_le
  rw [← wf.length_content, size, content, List.length_append] at bound
  rw [content]
  exact FifoRun.single (.push bound)

theorem fifo_removed {out : List UInt8} (content : b.content = out ++ c.content) :
    FifoRun n b.content ([BipEvent.removed out].filterMap BipEvent.effect) c.content := by
  rw [content]
  exact FifoRun.single .pop

/-- Every operation does to the queue what its events say. -/
theorem bip_step (wf : b.Wf) (size : b.size = n) (o : BipOp) (fits : o.Fits n) :
    ((b.step o).1.Wf ∧ (b.step o).1.size = n) ∧
      FifoRun n b.content ((b.step o).2.filterMap BipEvent.effect) (b.step o).1.content := by
  have span_stores : ∀ data : List UInt8, (data.take b.getWriteBuffer.size).length ≤ b.getWriteBuffer.size := by
    intro data
    rw [List.length_take]
    omega
  cases o with
  | write data =>
    by_cases fits : b.Fits data.length
    · obtain ⟨ok, kept, content, same⟩ := wf.write fits
      simp only [BipBuffer.step, ok, if_true]
      exact ⟨⟨kept, same.trans size⟩, fifo_stored kept (same.trans size) content⟩
    · simp only [BipBuffer.step, BipBuffer.write_refused fits]
      exact ⟨⟨wf, size⟩, .nil⟩
  | dma data =>
    change data.length ≤ n at fits
    simp only [BipBuffer.step]
    by_cases room : data.length ≤ b.getWriteBuffer.size
    · obtain ⟨ok, kept, content, same⟩ := wf.advance room
      rw [List.take_of_length_le room, ok]
      exact ⟨⟨kept, same.trans size⟩, fifo_stored kept (same.trans size) content⟩
    · -- what does not fit is refused, since it is no more than an empty buffer holds
      obtain ⟨kept, content, same, available, span⟩ := wf.store_span (span_stores data)
      have some_ : b.available ≠ 0 := by
        intro none
        have whole := wf.span_of_empty none
        omega
      rw [kept.advance_beyond (by rw [span]; omega), available, if_neg some_]
      refine ⟨⟨kept, same.trans size⟩, ?_⟩
      show FifoRun n b.content [] _
      rw [content]
      exact .nil
  | dmaWrapped data =>
    simp only [BipBuffer.step]
    by_cases room : data.length ≤ b.getWriteBufferForceWrap.size
    · obtain ⟨ok, kept, content, same⟩ := wf.advanceWrapped room
      rw [List.take_of_length_le room, ok]
      exact ⟨⟨kept, same.trans size⟩, fifo_stored kept (same.trans size) content⟩
    · obtain ⟨kept, content, same, span⟩ := wf.store_wrapped
        (show (data.take b.getWriteBufferForceWrap.size).length ≤ _ by rw [List.length_take]; omega)
      rw [kept.advanceWrapped_beyond (by rw [span]; omega)]
      refine ⟨⟨kept, same.trans size⟩, ?_⟩
      show FifoRun n b.content [] _
      rw [content]
      exact .nil
  | read length =>
    simp only [BipBuffer.step]
    by_cases inside : length ≤ b.available
    · obtain ⟨kept, content, buffer, -⟩ := wf.discard inside
      rw [wf.read inside]
      refine ⟨⟨kept, (congrArg List.length buffer).trans size⟩, fifo_removed ?_⟩
      rw [content, List.take_append_drop]
    · rw [BipBuffer.read_refused (Nat.lt_of_not_le inside)]
      exact ⟨⟨wf, size⟩, .nil⟩
  | discard length =>
    simp only [BipBuffer.step]
    by_cases inside : length ≤ b.available
    · obtain ⟨kept, content, buffer, -⟩ := wf.discard inside
      rw [if_pos inside]
      refine ⟨⟨kept, (congrArg List.length buffer).trans size⟩, fifo_removed ?_⟩
      rw [content, List.take_append_drop]
    · rw [BipBuffer.discard_refused (Nat.lt_of_not_le inside), if_neg inside]
      exact ⟨⟨wf, size⟩, .nil⟩
  | clear =>
    obtain ⟨kept, content⟩ := b.wf_clear
    refine ⟨⟨kept, size⟩, fifo_removed ?_⟩
    show b.content = b.content ++ b.clear.content
    rw [content, List.append_nil]

/-- **The two-region buffer is a queue.** Over any run from a zero-initialised buffer of `n` bytes in
which each span is committed by its own function, and `advance_write_index` is never told more than
`n` bytes: what has been read, discarded and cleared, followed by what is unread, is what was
accepted, in order, and at most `n` bytes are unread. In every state `peek` and the read spans show
exactly the requested range of the unread bytes, and there is no write span if and only if `full`
says so. -/
theorem bip_refines_fifo (n : Nat) (ops : List BipOp) (fits : ∀ o ∈ ops, o.Fits n) :
    let b := bipBuffer.exec (.init n) ops
    let log := bipBuffer.trace (.init n) ops
    FifoRun n [] (log.filterMap BipEvent.effect) b.content ∧ b.content.length = b.available ∧ b.available ≤ n ∧
      (∀ offset length, offset + length ≤ b.available →
        b.peek offset length = some (slice b.content offset length) ∧
        (b.getReadSpans offset length).1.bytes b.buffer ++ (b.getReadSpans offset length).2.bytes b.buffer =
          slice b.content offset length) ∧
      (b.full = true ↔ b.getWriteBuffer.size = 0) := by
  intro b log
  have start : (BipBuffer.init n).Wf ∧ (BipBuffer.init n).size = n :=
    ⟨BipBuffer.wf_init n, List.length_replicate⟩
  have keeps : ∀ (t : BipBuffer) (o : BipOp), o.Fits n → t.Wf ∧ t.size = n →
      ((t.step o).1.Wf ∧ (t.step o).1.size = n) ∧
        FifoRun n t.content ((t.step o).2.filterMap BipEvent.effect) (t.step o).1.content :=
    fun t o fits kept => bip_step kept.1 kept.2 o fits
  obtain ⟨⟨wf, size⟩, run⟩ := bipBuffer.refines_fifo_of start keeps ops fits
  rw [BipBuffer.content_init] at run
  have bound := wf.available_le
  rw [size] at bound
  exact ⟨run, wf.length_content, bound, fun _ _ inside => ⟨wf.peek_content inside, wf.getReadSpans_content inside⟩,
    wf.full_iff⟩

/-- Both regions in use: six bytes by DMA, four given up, four more written behind them, and three
at the start. -/
theorem bip_refines_fifo_wrapped :
    let ops : List BipOp := [.dma [1, 2, 3, 4, 5, 6], .discard 4, .write [7, 8], .dmaWrapped [9, 10, 11], .read 2]
    let b := bipBuffer.exec (.init 8) ops
    FifoRun 8 [] ((bipBuffer.trace (.init 8) ops).filterMap BipEvent.effect) b.content ∧
      b.content = [7, 8, 9, 10, 11] ∧ b.regionBSize = 3 := by
  intro ops b
  have fits : ∀ o ∈ ops, o.Fits 8 := by
    intro o member
    simp only [ops, List.mem_cons, List.not_mem_nil, or_false] at member
    obtain rfl | rfl | rfl | rfl | rfl := member
    · show 6 ≤ 8
      decide
    all_goals trivial
  refine ⟨(bip_refines_fifo 8 ops fits).1, ?_, ?_⟩ <;> decide +kernel

end Queue

end FloridUsb.Rpl
