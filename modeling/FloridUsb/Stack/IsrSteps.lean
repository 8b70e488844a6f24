import FloridUsb.Lib.BoundedFifo
import FloridUsb.Stack.IsrRing

/-!
# The interrupt ring under interleaving

`ISRRingBuffer::write` runs in an interrupt while `ISRRingBuffer::read` runs in the main loop.
Here each of them is a sequence of accesses to the shared memory (`produce`, `consume`): an
index is loaded, one byte is copied, an index is published. A run is any interleaving of the
two, with any arguments and of any length, so the indices wrap as often as they like and
either side may work with an index the other has moved on from.

The ring is still a bounded FIFO queue of bytes. A chunk enters it when the writer publishes
its index, and bytes leave it when the reader publishes its own (`ring_laws`).
-/

namespace FloridUsb.Stack
set_option autoImplicit false

open Lib

/-- Where the producer stands in `write`. -/
inductive Writer (N : Nat)
  | idle
  /-- It has been called. -/
  | entered (data : List UInt8)
  /-- It has `w` and is about to read `m_read_idx`. -/
  | sizing (data : List UInt8) (w : BitVec N)
  | copying (data : List UInt8) (w : BitVec N) (done : Nat)
  /-- It is about to count a drop; `seen` is the read index it has seen, if it came that far. -/
  | dropping (data : List UInt8) (seen : Option (BitVec N))
  deriving DecidableEq

/-- Where the consumer stands in `read`. -/
inductive Reader
  | idle
  | entered (max : Nat)
  | copying (n : Nat) (out : List UInt8)
  deriving DecidableEq

/-- The ring's memory and its two users. -/
structure SharedRing (N : Nat) where
  buf : List UInt8
  writeIdx : BitVec N
  dropCount : BitVec N
  readIdx : BitVec N
  writer : Writer N
  reader : Reader
  deriving DecidableEq

/-- What a call comes back with. -/
inductive RingReturn (N : Nat)
  | accepted (data : List UInt8)
  | refused (data : List UInt8) (seen : Option (BitVec N))
  | took (out : List UInt8)
  deriving DecidableEq

/-- Who goes next: one of the sides is called, or takes its next step. -/
inductive Turn
  | write (data : List UInt8)
  | produce
  | read (max : Nat)
  | consume

/-- A chunk enters the queue when `write` accepts it and bytes leave it when `read` returns. -/
def RingReturn.effect {N : Nat} : RingReturn N → Option (FifoOp UInt8)
  | .accepted data => some (.push data)
  | .refused _ _ => none
  | .took out => some (.pop out)

namespace SharedRing

variable {N : Nat} (k : Nat) (s : SharedRing N)

def init (N k : Nat) : SharedRing N where
  buf := List.replicate (capacity k) 0
  writeIdx := 0
  dropCount := 0
  readIdx := 0
  writer := .idle
  reader := .idle

/-- The place in the array of byte `i` of a copy from the index `idx` on: the second `memcpy`
starts over at the front. -/
def cell (idx : BitVec N) (i : Nat) : Nat :=
  let start := ISRRingBuffer.masked k idx
  let first := capacity k - start
  if i < first then start + i else i - first

/-- The next access of `write`. -/
def produce : SharedRing N × List (RingReturn N) :=
  match s.writer with
  | .idle => (s, [])
  | .entered data =>
    if data.length > capacity k then ({ s with writer := .dropping data none }, [])
    else ({ s with writer := .sizing data s.writeIdx }, [])
  | .sizing data w =>
    let avail := BitVec.ofNat N (capacity k) - (w - s.readIdx)
    if data.length > avail.toNat then ({ s with writer := .dropping data (some s.readIdx) }, [])
    else ({ s with writer := .copying data w 0 }, [])
  | .copying data w done =>
    match data[done]? with
    | some byte => ({ s with buf := s.buf.set (cell k w done) byte, writer := .copying data w (done + 1) }, [])
    | none => ({ s with writeIdx := w + BitVec.ofNat N data.length, writer := .idle }, [.accepted data])
  | .dropping data seen => ({ s with dropCount := s.dropCount + 1, writer := .idle }, [.refused data seen])

/-- `available`, called by the consumer. -/
def available : Nat := (s.writeIdx - s.readIdx).toNat

/-- The next access of `read`. -/
def consume : SharedRing N × List (RingReturn N) :=
  match s.reader with
  | .idle => (s, [])
  | .entered max =>
    let avail := s.available
    if avail = 0 ∨ max = 0 then ({ s with reader := .idle }, [.took []])
    else ({ s with reader := .copying (if max < avail then max else avail) [] }, [])
  | .copying n out =>
    if out.length < n then
      ({ s with reader := .copying n (out ++ [s.buf.getD (cell k s.readIdx out.length) 0]) }, [])
    else ({ s with readIdx := s.readIdx + BitVec.ofNat N n, reader := .idle }, [.took out])

/-- One producer and one consumer: a side is called again only once it has returned. -/
def turn : Turn → SharedRing N × List (RingReturn N)
  | .write data => if s.writer = .idle then ({ s with writer := .entered data }, []) else (s, [])
  | .produce => s.produce k
  | .read max => if s.reader = .idle then ({ s with reader := .entered max }, []) else (s, [])
  | .consume => s.consume k

/-- The two sides of a ring of capacity `2 ^ k`. -/
def sides (N k : Nat) : Machine (SharedRing N) Turn (RingReturn N) where
  step s t := s.turn k t

/-- The unread bytes, oldest first. -/
def content : List UInt8 := (List.range s.available).map fun i => s.buf.getD (cell k s.readIdx i) 0

@[simp] theorem length_content : (s.content k).length = s.available := by
  simp [content]

/-! ### Cells -/

section Cells

variable {k} {idx : BitVec N} {i j n : Nat}

theorem masked_lt (narrow : k < N) (idx : BitVec N) : ISRRingBuffer.masked k idx < capacity k := by
  rw [ISRRingBuffer.masked_eq narrow]
  exact Nat.mod_lt _ (ISRRingBuffer.capacity_pos k)

theorem cell_eq (narrow : k < N) (hi : i < capacity k) :
    cell k idx i = (ISRRingBuffer.masked k idx + i) % capacity k := by
  have := masked_lt narrow idx
  simp only [cell]
  split
  · rw [Nat.mod_eq_of_lt (by omega)]
  · rw [Nat.mod_eq_sub_mod (by omega), Nat.mod_eq_of_lt (by omega)]
    omega

theorem cell_lt (narrow : k < N) (hi : i < capacity k) : cell k idx i < capacity k := by
  rw [cell_eq narrow hi]
  exact Nat.mod_lt _ (ISRRingBuffer.capacity_pos k)

/-- A copy that starts `n` further on runs through the same cells. -/
theorem cell_add (narrow : k < N) (hi : n + i < capacity k) :
    cell k (idx + BitVec.ofNat N n) i = cell k idx (n + i) := by
  rw [cell_eq narrow hi, cell_eq narrow (by omega), ISRRingBuffer.masked_add narrow, Nat.mod_add_mod, Nat.add_assoc]

/-- A copy of at most the capacity meets no cell twice. -/
theorem cell_inj (narrow : k < N) (hi : i < capacity k) (hj : j < capacity k) (same : cell k idx i = cell k idx j) :
    i = j := by
  have := masked_lt narrow idx
  simp only [cell] at same
  split at same <;> split at same <;> omega

end Cells

/-! ### What holds between any two accesses -/

/-- The producer's snapshots: nobody else moves the write index, the room it has found can only
grow, and what it has copied stays. -/
def WriterSound : Prop :=
  match s.writer with
  | .sizing data w => w = s.writeIdx ∧ data.length ≤ capacity k
  | .copying data w done =>
    w = s.writeIdx ∧ s.available + data.length ≤ capacity k ∧ done ≤ data.length ∧
      ∀ i < done, s.buf.getD (cell k w i) 0 = data.getD i 0
  | _ => True

/-- The consumer's snapshot: the bytes it has counted are still there, and those it has copied
are the oldest ones. -/
def ReaderSound : Prop :=
  match s.reader with
  | .copying n out => n ≤ s.available ∧ out.length ≤ n ∧ out = (s.content k).take out.length
  | _ => True

structure Sound : Prop where
  length_buf : s.buf.length = capacity k
  filled : s.available ≤ capacity k
  writer : s.WriterSound k
  reader : s.ReaderSound k

theorem sound_init : (init N k).Sound k where
  length_buf := List.length_replicate
  filled := by simp [available, init]
  writer := trivial
  reader := trivial

section Steps

variable {k} {s}

/-- The memory between two accesses, as the ring that is used by one thread alone. -/
def ring (narrow : k < N) (sound : s.Sound k) : ISRRingBuffer N k where
  buf := s.buf
  writeIdx := s.writeIdx
  dropCount := s.dropCount
  readIdx := s.readIdx
  length_buf := sound.length_buf
  narrow := narrow
  filled := sound.filled

/-- A run of the array laid out twice, cell by cell. -/
theorem slice_twice {buf : List UInt8} {start n : Nat} (inside : start < buf.length) (fits : n ≤ buf.length) :
    slice (buf ++ buf) start n =
      (List.range n).map fun i => buf.getD
        (if i < buf.length - start then start + i else i - (buf.length - start)) 0 := by
  apply List.ext_getElem
  · rw [length_slice (by rw [List.length_append]; omega), List.length_map, List.length_range]
  intro i hi hi'
  have small : i < n := by
    rwa [List.length_map, List.length_range] at hi'
  simp only [slice, List.getElem_take, List.getElem_drop, List.getElem_map, List.getElem_range]
  by_cases near : start + i < buf.length
  · rw [List.getElem_append_left near, if_pos (by omega), List.getD_eq_getElem _ _ near]
  · have wrapped : i - (buf.length - start) = start + i - buf.length := by omega
    rw [List.getElem_append_right (by omega), if_neg (by omega), wrapped, List.getD_eq_getElem _ _ (by omega)]

/-- The unread bytes are those of the ring. -/
theorem content_ring (narrow : k < N) (sound : s.Sound k) : (ring narrow sound).content = s.content k := by
  have size := sound.length_buf
  have start := masked_lt narrow s.readIdx
  have full := sound.filled
  show slice (s.buf ++ s.buf) (ISRRingBuffer.masked k s.readIdx) s.available = _
  rw [slice_twice (by omega) (by omega), size]
  rfl

/-- The writer's index, from the reader's. -/
theorem writeIdx_eq (s : SharedRing N) : s.writeIdx = s.readIdx + BitVec.ofNat N s.available := by
  rw [available, BitVec.ofNat_toNat, BitVec.setWidth_eq, BitVec.add_comm, BitVec.sub_add_cancel]

/-- The room the producer finds is what is left: the subtraction does not wrap. -/
theorem room_eq (narrow : k < N) (sound : s.Sound k) :
    (BitVec.ofNat N (capacity k) - (s.writeIdx - s.readIdx)).toNat = capacity k - s.available := by
  have full : s.available ≤ capacity k := sound.filled
  have fits : (BitVec.ofNat N (capacity k)).toNat = capacity k := by
    rw [BitVec.toNat_ofNat, Nat.mod_eq_of_lt (ISRRingBuffer.capacity_lt narrow)]
  rw [BitVec.toNat_sub_of_le, fits]
  · rfl
  · rw [BitVec.le_def, fits]
    exact full

/-- A cell of the room holds no unread byte. -/
theorem cell_room_ne (narrow : k < N) {i j : Nat} (unread : i < s.available) (room : s.available + j < capacity k) :
    cell k s.writeIdx j ≠ cell k s.readIdx i := by
  rw [writeIdx_eq, cell_add narrow room]
  intro same
  have := cell_inj narrow room (by omega) same
  omega

/-- Copying a byte into the room changes no unread byte. -/
theorem content_store (narrow : k < N) {j : Nat} {byte : UInt8} {writer : Writer N}
    (room : s.available + j < capacity k) :
    ({ s with buf := s.buf.set (cell k s.writeIdx j) byte, writer := writer } : SharedRing N).content k =
      s.content k := by
  apply List.map_congr_left
  intro i hi
  have unread : i < s.available := List.mem_range.mp hi
  show (s.buf.set _ byte).getD _ 0 = _
  rw [List.getD_eq_getElem?_getD, List.getElem?_set_ne (cell_room_ne narrow unread room), ← List.getD_eq_getElem?_getD]

/-- The consumer can only help the producer. -/
theorem WriterSound.mono {t : SharedRing N} (sound : s.WriterSound k) (writer : t.writer = s.writer)
    (buf : t.buf = s.buf)
    (writeIdx : t.writeIdx = s.writeIdx) (less : t.available ≤ s.available) : t.WriterSound k := by
  simp only [WriterSound] at sound ⊢
  rw [writer, buf, writeIdx]
  cases hw : s.writer with
  | copying data w done =>
    simp only [hw] at sound
    obtain ⟨snapshot, room, copied⟩ := sound
    exact ⟨snapshot, by omega, copied⟩
  | sizing data w =>
    simpa only [hw] using sound
  | idle => trivial
  | entered data => trivial
  | dropping data seen => trivial

/-- The producer can only add behind what the consumer has counted. -/
theorem ReaderSound.mono {t : SharedRing N} (sound : s.ReaderSound k) (reader : t.reader = s.reader) {more : List UInt8}
    (content : t.content k = s.content k ++ more) : t.ReaderSound k := by
  have grown : t.available = s.available + more.length := by
    rw [← length_content k t, content, List.length_append, length_content]
  simp only [ReaderSound] at sound ⊢
  rw [reader, content]
  cases hr : s.reader with
  | copying n out =>
    simp only [hr] at sound
    obtain ⟨counted, some, copied⟩ := sound
    refine ⟨by omega, some, ?_⟩
    rw [List.take_append_of_le_length (by rw [length_content]; omega)]
    exact copied
  | idle => trivial
  | entered max => trivial

/-- A step that moves nothing but the two sides' places. -/
theorem Sound.move (sound : s.Sound k) {t : SharedRing N} (buf : t.buf = s.buf) (writeIdx : t.writeIdx = s.writeIdx)
    (readIdx : t.readIdx = s.readIdx) (writer : t.WriterSound k) (reader : t.ReaderSound k) :
    t.Sound k ∧ t.content k = s.content k := by
  have same : t.available = s.available := by rw [available, available, writeIdx, readIdx]
  constructor
  · constructor
    · rw [buf, sound.length_buf]
    · rw [same]
      exact sound.filled
    · exact writer
    · exact reader
  · rw [content, content, same, buf, readIdx]

/-- The producer copies a byte in. -/
theorem Sound.store (sound : s.Sound k) (narrow : k < N) {data : List UInt8} {w : BitVec N} {done : Nat} {byte : UInt8}
    (copying : s.writer = .copying data w done) (next : data[done]? = some byte) {t : SharedRing N}
    (result : t = { s with buf := s.buf.set (cell k w done) byte, writer := .copying data w (done + 1) }) :
    t.Sound k ∧ t.content k = s.content k := by
  have snapshot := sound.writer
  simp only [WriterSound, copying] at snapshot
  obtain ⟨rfl, room, -, copied⟩ := snapshot
  obtain ⟨more, rfl⟩ := List.getElem?_eq_some_iff.mp next
  have same : t.content k = s.content k := by
    rw [result]
    exact content_store narrow (by omega)
  subst result
  refine ⟨⟨?_, sound.filled, ?_, ?_⟩, same⟩
  · rw [List.length_set, sound.length_buf]
  · refine ⟨rfl, room, more, fun i hi => ?_⟩
    show (s.buf.set _ _).getD _ 0 = _
    rcases Nat.lt_succ_iff_lt_or_eq.mp hi with before | rfl
    · have apart : cell k s.writeIdx done ≠ cell k s.writeIdx i := by
        intro meet
        have := cell_inj narrow (by omega) (by omega) meet
        omega
      rw [List.getD_eq_getElem?_getD, List.getElem?_set_ne apart, ← List.getD_eq_getElem?_getD]
      exact copied i before
    · have place : cell k s.writeIdx i < capacity k := cell_lt narrow (by omega)
      rw [List.getD_eq_getElem?_getD, List.getElem?_set_self (by rw [sound.length_buf]; exact place),
        List.getD_eq_getElem _ _ more]
      rfl
  · apply ReaderSound.mono sound.reader
    · rfl
    · exact same.trans (List.append_nil _).symm

/-- The producer publishes a chunk. -/
theorem Sound.publish (sound : s.Sound k) (narrow : k < N) {data : List UInt8} {w : BitVec N} {done : Nat}
    (copying : s.writer = .copying data w done) (last : data[done]? = none) {t : SharedRing N}
    (result : t = { s with writeIdx := w + BitVec.ofNat N data.length, writer := .idle }) :
    t.Sound k ∧ s.available + data.length ≤ capacity k ∧ t.content k = s.content k ++ data := by
  have snapshot := sound.writer
  simp only [WriterSound, copying] at snapshot
  obtain ⟨rfl, room, -, copied⟩ := snapshot
  have whole : data.length ≤ done := List.getElem?_eq_none_iff.mp last
  have grown : t.available = s.available + data.length := by
    rw [result]
    exact (ring narrow sound).filled_write (show data.length ≤ capacity k - s.available by omega)
  have appended : t.content k = s.content k ++ data := by
    have behind : (List.range data.length).map (fun i => s.buf.getD (cell k s.readIdx (s.available + i)) 0) = data := by
      apply List.ext_getElem
      · rw [List.length_map, List.length_range]
      intro i _ hi
      rw [List.getElem_map, List.getElem_range, ← cell_add narrow (by omega), ← writeIdx_eq, copied i (by omega),
        List.getD_eq_getElem _ _ hi]
    rw [content, grown, List.range_add, List.map_append, List.map_map, result]
    exact congrArg (s.content k ++ ·) behind
  refine ⟨⟨?_, ?_, ?_, ?_⟩, room, appended⟩
  · rw [result]
    exact sound.length_buf
  · rw [grown]
    exact room
  · rw [result]
    trivial
  · apply ReaderSound.mono sound.reader _ appended
    rw [result]

/-- The consumer copies a byte out. -/
theorem Sound.load (sound : s.Sound k) {n : Nat} {out : List UInt8} (copying : s.reader = .copying n out)
    (more : out.length < n) {t : SharedRing N}
    (result : t = { s with reader := .copying n (out ++ [s.buf.getD (cell k s.readIdx out.length) 0]) }) :
    t.Sound k ∧ t.content k = s.content k := by
  have snapshot := sound.reader
  simp only [ReaderSound, copying] at snapshot
  obtain ⟨counted, -, copied⟩ := snapshot
  subst result
  refine sound.move ?_ ?_ ?_ ?_ ?_
  · rfl
  · rfl
  · rfl
  · exact sound.writer
  · refine ⟨counted, ?_, ?_⟩
    · rw [List.length_append]
      exact more
    · have here : out.length < (s.content k).length := by
        rw [length_content]
        omega
      show _ = (s.content k).take _
      rw [List.length_append, List.length_singleton, List.take_succ_eq_append_getElem here, ← copied]
      simp [content]

/-- The consumer publishes what it has taken. -/
theorem Sound.release (sound : s.Sound k) (narrow : k < N) {n : Nat} {out : List UInt8}
    (copying : s.reader = .copying n out) (full : ¬ out.length < n) {t : SharedRing N}
    (result : t = { s with readIdx := s.readIdx + BitVec.ofNat N n, reader := .idle }) :
    t.Sound k ∧ s.content k = out ++ t.content k := by
  have snapshot := sound.reader
  simp only [ReaderSound, copying] at snapshot
  obtain ⟨counted, some, copied⟩ := snapshot
  have whole : out.length = n := by omega
  have less : t.available = s.available - n := by
    rw [result]
    exact (ring narrow sound).filled_read counted
  have bound := sound.filled
  have rest : t.content k = (s.content k).drop n := by
    apply List.ext_getElem
    · rw [List.length_drop, length_content, length_content, less]
    intro i hi _
    rw [length_content, less] at hi
    subst result
    simp only [content, List.getElem_map, List.getElem_range, List.getElem_drop]
    rw [cell_add narrow (by omega)]
  refine ⟨⟨?_, ?_, ?_, ?_⟩, ?_⟩
  · rw [result]
    exact sound.length_buf
  · omega
  · apply WriterSound.mono sound.writer
    · rw [result]
    · rw [result]
    · rw [result]
    · omega
  · rw [result]
    trivial
  · rw [whole] at copied
    rw [rest, copied, List.take_append_drop]

/-- What a step does: it keeps the invariant, and the unread bytes change as its events say. -/
def Keeps (k : Nat) (s : SharedRing N) (r : SharedRing N × List (RingReturn N)) : Prop :=
  r.1.Sound k ∧ FifoRun (capacity k) (s.content k) (r.2.filterMap RingReturn.effect) (r.1.content k)

theorem Keeps.quiet {t : SharedRing N} {ev : List (RingReturn N)} (kept : t.Sound k ∧ t.content k = s.content k)
    (silent : ev.filterMap RingReturn.effect = []) : Keeps k s (t, ev) := by
  refine ⟨kept.1, ?_⟩
  show FifoRun _ _ (ev.filterMap RingReturn.effect) (t.content k)
  rw [silent, kept.2]
  exact FifoRun.nil

/-- The producer's places before it copies. -/
theorem Sound.setWriter (sound : s.Sound k) {writer : Writer N}
    (place : ({ s with writer := writer } : SharedRing N).WriterSound k) :
    ({ s with writer := writer } : SharedRing N).Sound k ∧
      ({ s with writer := writer } : SharedRing N).content k = s.content k := by
  refine sound.move ?_ ?_ ?_ place sound.reader
  · rfl
  · rfl
  · rfl

/-- The consumer's places before it copies. -/
theorem Sound.setReader (sound : s.Sound k) {reader : Reader}
    (place : ({ s with reader := reader } : SharedRing N).ReaderSound k) :
    ({ s with reader := reader } : SharedRing N).Sound k ∧
      ({ s with reader := reader } : SharedRing N).content k = s.content k := by
  refine sound.move ?_ ?_ ?_ sound.writer place
  · rfl
  · rfl
  · rfl

theorem produce_keeps (narrow : k < N) (sound : s.Sound k) : Keeps k s (s.produce k) := by
  unfold produce
  split
  next => exact Keeps.quiet ⟨sound, rfl⟩ rfl
  next data _ =>
    split
    next => exact Keeps.quiet (sound.setWriter trivial) rfl
    next small => exact Keeps.quiet (sound.setWriter ⟨rfl, Nat.le_of_not_gt small⟩) rfl
  next data w sizing =>
    have snapshot := sound.writer
    simp only [WriterSound, sizing] at snapshot
    obtain ⟨rfl, small⟩ := snapshot
    dsimp only
    rw [room_eq narrow sound]
    split
    next => exact Keeps.quiet (sound.setWriter trivial) rfl
    next fits =>
      have full := sound.filled
      apply Keeps.quiet _ rfl
      apply sound.setWriter
      refine ⟨rfl, ?_, Nat.zero_le _, fun i hi => absurd hi (Nat.not_lt_zero i)⟩
      show s.available + _ ≤ _
      omega
  next data w done copying =>
    split
    next byte next => exact Keeps.quiet (sound.store narrow copying next rfl) rfl
    next last =>
      obtain ⟨kept, room, appended⟩ := sound.publish narrow copying last rfl
      refine ⟨kept, FifoRun.single ?_⟩
      rw [appended]
      apply FifoStep.push
      rw [length_content]
      exact room
  next data seen _ =>
    apply Keeps.quiet _ rfl
    refine sound.move ?_ ?_ ?_ trivial sound.reader
    · rfl
    · rfl
    · rfl

theorem consume_keeps (narrow : k < N) (sound : s.Sound k) : Keeps k s (s.consume k) := by
  unfold consume
  split
  next => exact Keeps.quiet ⟨sound, rfl⟩ rfl
  next max _ =>
    dsimp only
    split
    next =>
      have place : ({ s with reader := .idle } : SharedRing N).ReaderSound k := trivial
      obtain ⟨kept, same⟩ := sound.setReader place
      refine ⟨kept, FifoRun.single ?_⟩
      rw [same]
      show FifoStep _ ([] ++ s.content k) (.pop []) (s.content k)
      exact FifoStep.pop
    next =>
      apply Keeps.quiet _ rfl
      apply sound.setReader
      refine ⟨?_, Nat.zero_le _, List.take_zero.symm⟩
      show (if max < s.available then max else s.available) ≤ s.available
      split <;> omega
  next n out copying =>
    split
    next more => exact Keeps.quiet (sound.load copying more rfl) rfl
    next full =>
      obtain ⟨kept, front⟩ := sound.release narrow copying full rfl
      refine ⟨kept, FifoRun.single ?_⟩
      rw [front]
      exact FifoStep.pop

theorem turn_keeps (narrow : k < N) (sound : s.Sound k) (t : Turn) : Keeps k s (s.turn k t) := by
  cases t with
  | write data =>
    simp only [turn]
    split
    · exact Keeps.quiet (sound.setWriter trivial) rfl
    · exact Keeps.quiet ⟨sound, rfl⟩ rfl
  | produce => exact produce_keeps narrow sound
  | read max =>
    simp only [turn]
    split
    · exact Keeps.quiet (sound.setReader trivial) rfl
    · exact Keeps.quiet ⟨sound, rfl⟩ rfl
  | consume => exact consume_keeps narrow sound

/-- **The ring refines a bounded FIFO queue**, whoever goes next. -/
theorem refines_fifo (narrow : k < N) (turns : List Turn) :
    ((sides N k).exec (init N k) turns).Sound k ∧
      FifoRun (capacity k) [] (((sides N k).trace (init N k) turns).filterMap RingReturn.effect)
        (((sides N k).exec (init N k) turns).content k) := by
  have empty : (init N k).content k = [] := by simp [content, available, init]
  rw [← empty]
  exact (sides N k).refines_fifo (sound_init k) (fun _ t sound => turn_keeps narrow sound t) turns

end Steps

end SharedRing

end FloridUsb.Stack
