import FloridUsb.Rpl.Parser

/-!
# The parser scans its stream

On a well-formed buffer, `try_parse_packets` is the one-pass reading of the unread bytes:
it leaves exactly what the scan leaves, and every frame of the scan with a known command is
presented once, in order (`Presents`). A frame whose length is the size of its type is
presented as its payload; any other is presented as something else.

The regions do not show in the result. `parse_frame_impl` sees the unread bytes as one
sequence, whichever of its fields lie across the end of region A.
-/

namespace FloridUsb.Rpl
set_option autoImplicit false

open Lib DefaultProtocol

/-! ### Fields across two pieces -/

theorem calcCrcOf_eq {p1 p2 : List UInt8} {calcLen : Nat} :
    calcCrcOf p1 p2 calcLen = crc16 ((p1 ++ p2).take calcLen) := by
  unfold calcCrcOf
  split
  · rename_i within
    rw [List.take_append_of_le_length within]
  · rename_i beyond
    have whole : p1.take calcLen = p1 := List.take_of_length_le (by omega)
    rw [List.take_append, whole, crc16_append]

theorem recvCrcOf_eq {p1 p2 : List UInt8} {calcLen : Nat} (total : p1.length + p2.length = calcLen + 2) :
    recvCrcOf p1 p2 calcLen = le16 (p1 ++ p2) calcLen := by
  unfold recvCrcOf
  split
  · rename_i within
    rw [le16_append _ _ _ within]
  split
  · rename_i beyond
    rw [le16_append_right _ _ _ beyond]
  · rw [le16, List.getD_append _ _ _ _ (by omega), List.getD_append_right _ _ _ _ (by omega),
      show calcLen + 1 - p1.length = 0 by omega]

@[simp] theorem length_readObject (outside : Nat → UInt8) (mem : List UInt8) (off n : Nat) :
    (readObject outside mem off n).length = n := by simp [readObject]

/-- Within the buffer an object is the bytes at its place. -/
theorem readObject_eq {outside : Nat → UInt8} {mem : List UInt8} {off n : Nat} (h : off + n ≤ mem.length) :
    readObject outside mem off n = slice mem off n := by
  apply List.ext_getElem
  · rw [length_readObject, length_slice h]
  · intro i hi _
    rw [length_readObject] at hi
    have inside : off + i < mem.length := by omega
    simp only [readObject, List.getElem_map, List.getElem_range, slice, List.getElem_take, List.getElem_drop,
      List.getD_eq_getElem?_getD, List.getElem?_eq_getElem inside, Option.getD_some]

/-- The object put together from two pieces. -/
theorem length_joined {x y : List UInt8} {n : Nat} (h : x.length + y.length ≤ n) :
    (memcpy (memcpy (List.replicate n 0) 0 x) x.length y).length = n := by
  have first : (memcpy (List.replicate n 0) 0 x).length = n := by
    rw [length_memcpy (by rw [List.length_replicate]; omega), List.length_replicate]
  rw [length_memcpy (by omega), first]

theorem joined_eq {x y : List UInt8} {n : Nat} (h : x.length + y.length = n) :
    memcpy (memcpy (List.replicate n 0) 0 x) x.length y = x ++ y := by
  have first : memcpy (List.replicate n 0) 0 x = x ++ List.replicate (n - x.length) 0 := by
    simp only [memcpy, List.take_zero, List.nil_append, Nat.zero_add, List.drop_replicate]
  rw [first, memcpy, List.take_left, List.drop_eq_nil_of_le (by simp; omega), List.append_nil]

/-- The payload's spans: all in A, across the end of A, or all in B. -/
theorem BipBuffer.Wf.payloadSpans_cases {b : BipBuffer} (wf : b.Wf) {dataLen : Nat}
    (enough : headerSize + dataLen + tailSize ≤ b.available) :
    let s := b.getReadSpans 0 (headerSize + dataLen + tailSize)
    (headerSize + dataLen ≤ b.regionASize ∧
      payloadSpans s.1 s.2 dataLen = (.at_ (b.regionAStart + headerSize) dataLen, .null)) ∨
    (headerSize < b.regionASize ∧ b.regionASize < headerSize + dataLen ∧
      payloadSpans s.1 s.2 dataLen = (.at_ (b.regionAStart + headerSize) (b.regionASize - headerSize),
        .at_ 0 (dataLen - (b.regionASize - headerSize)))) ∨
    (b.regionASize ≤ headerSize ∧
      payloadSpans s.1 s.2 dataLen = (.null, .at_ (headerSize - b.regionASize) dataLen)) := by
  simp only [headerSize, tailSize] at enough ⊢
  rw [wf.getReadSpans_front (by omega) enough]
  split
  · have long : 7 < 7 + dataLen + 2 := by omega
    have within : 7 + dataLen + 2 - 7 ≥ dataLen := by omega
    refine .inl ⟨by omega, ?_⟩
    simp only [payloadSpans, headerSize, Span.at_, Span.subspan, Option.map_some, Nat.add_zero, long, within, if_true]
  · rcases Nat.lt_or_ge 7 b.regionASize with more | less
    · by_cases within : b.regionASize - 7 ≥ dataLen
      · refine .inl ⟨by omega, ?_⟩
        simp only [payloadSpans, headerSize, Span.at_, Span.subspan, Option.map_some, Nat.add_zero, more, within,
          if_true]
      · refine .inr (.inl ⟨more, by omega, ?_⟩)
        simp only [payloadSpans, headerSize, Span.at_, Span.subspan, Option.map_some, Nat.add_zero, more, within,
          if_true, if_false]
    · have short : ¬ 7 < b.regionASize := by omega
      refine .inr (.inr ⟨less, ?_⟩)
      simp only [payloadSpans, headerSize, Span.at_, Span.subspan, Option.map_some, Nat.zero_add, short, if_false]

/-! ### Presenting a frame -/

/-- The object handed on has the size of the type that has the command. -/
def Call.Typed (Ts : PacketTypes) : Call → Prop
  | .packet cmd data => ∃ T, Ts.find cmd = some T ∧ data.length = T.size
  | .null cmd size => ∃ T, Ts.find cmd = some T ∧ size = T.size
  | .overrun cmd => ∃ T, Ts.find cmd = some T

/-- What becomes of a frame with valid checksums. -/
inductive Presents (Ts : PacketTypes) (f : Frame) : List Call → Prop where
  | unknown (h : Ts.find f.cmd = none) : Presents Ts f []
  | exact (T : PacketTraits) (h : Ts.find f.cmd = some T) (same : f.payload.length = T.size) :
      Presents Ts f [.packet f.cmd f.payload]
  | other (T : PacketTraits) (h : Ts.find f.cmd = some T) (differs : f.payload.length ≠ T.size) (call : Call)
      (typed : call.Typed Ts) : Presents Ts f [call]

theorem dispatch_presents (Ts : PacketTypes) (outside : Nat → UInt8) {b : BipBuffer} (wf : b.Wf) {dataLen : Nat}
    (cmd : UInt16) (enough : headerSize + dataLen + tailSize ≤ b.available) :
    let s := b.getReadSpans 0 (headerSize + dataLen + tailSize)
    let payload := payloadSpans s.1 s.2 dataLen
    Presents Ts ⟨cmd, slice b.content headerSize dataLen⟩ (dispatch Ts outside b.buffer cmd payload.1 payload.2) := by
  intro s payload
  have fits := wf.a_fits
  have below := wf.b_below
  have lengthA : (slice b.buffer b.regionAStart b.regionASize).length = b.regionASize := length_slice fits
  have lengthF : (slice b.content headerSize dataLen).length = dataLen :=
    length_slice (by rw [wf.length_content]; omega)
  have header : headerSize = 7 := rfl
  have tail : tailSize = 2 := rfl
  simp only [BipBuffer.size, BipBuffer.available] at fits enough
  cases found : Ts.find cmd with
  | none =>
    simp only [dispatch, found]
    exact .unknown found
  | some T =>
    have name : T.cmd = cmd := (PacketTypes.find_eq_some.mp found).2
    have pos := T.size_pos
    -- the frame's payload is presented as `[call]`: exactly, if the sizes agree
    have present : ∀ call : Call, call.Typed Ts →
        (dataLen = T.size → call = .packet cmd (slice b.content headerSize dataLen)) →
        Presents Ts ⟨cmd, slice b.content headerSize dataLen⟩ [call] := by
      intro call typed agree
      by_cases same : dataLen = T.size
      · rw [agree same]
        exact .exact T found (lengthF.trans same)
      · exact .other T found (fun h => same (lengthF.symm.trans h)) call typed
    have typed : ∀ data : List UInt8, data.length = T.size → (Call.packet T.cmd data).Typed Ts :=
      fun data h => ⟨T, by rw [name, found], h⟩
    -- a payload in two pieces is put together in an object of its own
    have join : ∀ p1 p2 : Span, (p1.bytes b.buffer).length = p1.size → (p2.bytes b.buffer).length = p2.size →
        p2.size ≠ 0 → p1.size + p2.size = dataLen →
        p1.bytes b.buffer ++ p2.bytes b.buffer = slice b.content headerSize dataLen →
        Presents Ts ⟨cmd, slice b.content headerSize dataLen⟩ (dispatch Ts outside b.buffer cmd p1 p2) := by
      intro p1 p2 l1 l2 two total joined
      simp only [dispatch, found, two, if_false]
      split
      · exact present _ ⟨T, by rw [name, found]⟩ fun same => by omega
      · rw [← l1]
        refine present _ (typed _ (length_joined (by omega))) fun same => ?_
        rw [joined_eq (by omega), name, joined]
    rcases wf.payloadSpans_cases enough with ⟨inA, spans⟩ | ⟨more, across, spans⟩ | ⟨inB, spans⟩
    · simp only [dispatch, found, payload, s, spans, Span.at_, Span.null, if_true]
      refine present _ (typed _ (length_readObject ..)) fun same => ?_
      rw [name, readObject_eq (by omega), BipBuffer.content,
        slice_append _ _ (by omega), slice_slice _ _ inA, same]
    · simp only [payload, s, spans]
      refine join _ _ (Span.length_bytes_at (by omega)) (Span.length_bytes_at (by omega)) ?_ ?_ ?_
      · rw [Span.size_at]
        omega
      · rw [Span.size_at, Span.size_at]
        omega
      · rw [BipBuffer.content, slice_append_across _ _ (by omega) (by omega), lengthA, slice_slice _ _ (by omega),
          slice_slice _ _ (by omega)]
        rfl
    · simp only [payload, s, spans]
      by_cases empty : dataLen = 0
      · simp only [dispatch, found, Span.size_at, empty, if_true, Span.null]
        have := present (.null T.cmd T.size) ⟨T, by rw [name, found], rfl⟩ fun same => by omega
        rwa [empty] at this
      refine join _ _ rfl (Span.length_bytes_at (by omega)) empty (Nat.zero_add _) ?_
      rw [BipBuffer.content, slice_append_right _ _ (by omega), lengthA, slice_slice _ _ (by omega), Nat.zero_add]
      rfl

/-- The header is the first seven unread bytes, in place or copied out. -/
theorem BipBuffer.Wf.header_eq {b : BipBuffer} (wf : b.Wf) (enough : headerSize ≤ b.available) :
    (if (b.getReadSpans 0 headerSize).2.size = 0 then (b.getReadSpans 0 headerSize).1.bytes b.buffer
      else (b.peek 0 headerSize).getD []) = b.content.take headerSize := by
  have joined := wf.getReadSpans_bytes (by decide) enough
  split
  · rename_i onePiece
    rw [← joined, wf.getReadSpans_front (by decide) enough] at *
    split at onePiece
    · rename_i inA
      simp only [inA, if_true, Span.bytes, Span.null, List.append_nil]
    · rw [Span.size_at] at onePiece
      omega
  · rw [wf.peek_front (by decide) enough, Option.getD_some]

/-- **One frame.** At a start byte, `parse_frame_impl` decides as the frame decoder does on
the unread bytes, and a frame it takes is presented. -/
theorem parseFrameImpl_spec (Ts : PacketTypes) (outside : Nat → UInt8) {b : BipBuffer} (wf : b.Wf)
    (start : b.content.head? = some startByte) :
    (frameVerdict Ts.maxPayload b.content = .wait ∧ parseFrameImpl Ts outside b = (.incomplete, [], b)) ∨
    (frameVerdict Ts.maxPayload b.content = .read 1 [] ∧ parseFrameImpl Ts outside b = (.failure, [], b)) ∨
    ∃ n f calls, frameVerdict Ts.maxPayload b.content = .read n [f] ∧
      parseFrameImpl Ts outside b = (.success, calls, b.discard n) ∧ Presents Ts f calls := by
  have header : headerSize = 7 := rfl
  have tail : tailSize = 2 := rfl
  have len := wf.length_content
  unfold parseFrameImpl
  simp only [frameVerdict, start, ne_eq, not_true_eq_false, if_false]
  by_cases short : b.available < headerSize
  · rw [if_pos short, if_pos (by omega)]
    exact .inl ⟨rfl, rfl⟩
  rw [if_neg short, if_neg (by omega), wf.header_eq (by omega)]
  have front : (b.content.take headerSize).take 4 = b.content.take 4 := by rw [List.take_take]; rfl
  have check : (b.content.take headerSize).getD 4 0 = b.content.getD 4 0 := by
    rw [List.getD_eq_getElem?_getD, List.getElem?_take_of_lt (by decide), List.getD_eq_getElem?_getD]
  rw [front, check, le16_take (by decide) (by omega), le16_take (by decide) (by omega)]
  generalize hd : (le16 b.content 1).toNat = dataLen
  by_cases badHeader : crc8 (b.content.take 4) = b.content.getD 4 0
  swap
  · simp only [badHeader, not_false_eq_true, if_true]
    exact .inr (.inl ⟨trivial, trivial⟩)
  simp only [badHeader, not_true_eq_false, if_false]
  by_cases big : dataLen > Ts.maxFrameSize - headerSize - tailSize
  · have : Ts.maxPayload < dataLen := big
    simp only [big, this, if_true]
    exact .inr (.inl ⟨trivial, trivial⟩)
  have fits : ¬ Ts.maxPayload < dataLen := big
  simp only [big, fits, if_false]
  by_cases part : b.available < headerSize + dataLen + tailSize
  · have : b.content.length < dataLen + 9 := by omega
    simp only [part, this, if_true]
    exact .inl ⟨trivial, trivial⟩
  have whole : ¬ b.content.length < dataLen + 9 := by omega
  simp only [part, whole, if_false]
  -- the frame as one sequence
  have joined := wf.getReadSpans_bytes (by omega) (Nat.le_of_not_lt part)
  have total := congrArg List.length joined
  rw [List.length_append, List.length_take, len, Nat.min_eq_left (by omega)] at total
  have calcLen : headerSize + dataLen + tailSize - tailSize = dataLen + 7 := by omega
  have crc : calcCrcOf ((b.getReadSpans 0 (headerSize + dataLen + tailSize)).1.bytes b.buffer)
      ((b.getReadSpans 0 (headerSize + dataLen + tailSize)).2.bytes b.buffer) (dataLen + 7) =
      crc16 (b.content.take (dataLen + 7)) := by
    rw [calcCrcOf_eq, joined, List.take_take, Nat.min_eq_left (by omega)]
  have recv : recvCrcOf ((b.getReadSpans 0 (headerSize + dataLen + tailSize)).1.bytes b.buffer)
      ((b.getReadSpans 0 (headerSize + dataLen + tailSize)).2.bytes b.buffer) (dataLen + 7) =
      le16 b.content (dataLen + 7) := by
    rw [recvCrcOf_eq (by omega), joined, le16_take (by omega) (by omega)]
  rw [calcLen, crc, recv]
  by_cases valid : crc16 (b.content.take (dataLen + 7)) = le16 b.content (dataLen + 7)
  swap
  · simp only [valid, not_false_eq_true, if_true]
    exact .inr (.inl ⟨trivial, trivial⟩)
  simp only [valid, not_true_eq_false, if_false]
  refine .inr (.inr ⟨dataLen + 9, _, _, rfl, ?_, dispatch_presents Ts outside wf (le16 b.content 5) (by omega)⟩)
  rw [show headerSize + dataLen + tailSize = dataLen + 9 by omega]

/-! ### The scan loop -/

/-- The calls the frames of a stream lead to. -/
inductive Presented (Ts : PacketTypes) : List Frame → List Call → Prop where
  | nil : Presented Ts [] []
  | cons {f : Frame} {fs : List Frame} {calls rest : List Call} (first : Presents Ts f calls)
      (others : Presented Ts fs rest) : Presented Ts (f :: fs) (calls ++ rest)

theorem Presented.append {Ts : PacketTypes} {fs gs : List Frame} {a b : List Call} (left : Presented Ts fs a)
    (right : Presented Ts gs b) : Presented Ts (fs ++ gs) (a ++ b) := by
  induction left with
  | nil => exact right
  | cons first others ih =>
    rw [List.append_assoc]
    exact .cons first ih

/-- What reading does to a buffer: the array stays, and region B is as it was or gone. -/
structure BipBuffer.Consumed (b b' : BipBuffer) : Prop where
  wf : b'.Wf
  buffer : b'.buffer = b.buffer
  regions : b'.regionBSize > 0 → b'.regionBSize = b.regionBSize ∧
    b'.regionAStart + b'.regionASize = b.regionAStart + b.regionASize

theorem BipBuffer.Consumed.refl {b : BipBuffer} (wf : b.Wf) : b.Consumed b := ⟨wf, rfl, fun _ => ⟨rfl, rfl⟩⟩

theorem BipBuffer.Consumed.trans {a b c : BipBuffer} (first : a.Consumed b) (second : b.Consumed c) : a.Consumed c where
  wf := second.wf
  buffer := second.buffer.trans first.buffer
  regions := fun hasB => by
    have later := second.regions hasB
    have earlier := first.regions (by omega)
    omega

theorem BipBuffer.Wf.consumed {b : BipBuffer} (wf : b.Wf) {length : Nat} (enough : length ≤ b.available) :
    b.Consumed (b.discard length) :=
  have spec := wf.discard enough
  ⟨spec.1, spec.2.2.1, spec.2.2.2⟩

theorem BipBuffer.Wf.available_discard {b : BipBuffer} (wf : b.Wf) {length : Nat} (enough : length ≤ b.available) :
    (b.discard length).available = b.available - length := by
  rw [← (wf.discard enough).1.length_content, (wf.discard enough).2.1, List.length_drop, wf.length_content]

/-- Bytes that are no start byte are skipped. -/
theorem scan_garbage (Ts : PacketTypes) {pre : List UInt8} (rest : List UInt8) (h : ∀ x ∈ pre, x ≠ startByte) :
    Ts.scan (pre ++ rest) = Ts.scan rest := by
  induction pre with
  | nil => rfl
  | cons x pre ih =>
    have skip : (frameDecoder Ts.maxPayload).verdict (x :: (pre ++ rest)) = .read 1 [] := by
      show frameVerdict Ts.maxPayload (x :: (pre ++ rest)) = _
      simp only [frameVerdict, List.head?_cons, ne_eq, h x List.mem_cons_self, not_false_eq_true, if_true]
    rw [PacketTypes.scan, List.cons_append, StreamDecoder.scan_read _ skip]
    exact ih fun y hy => h y (List.mem_cons_of_mem _ hy)

/-- A parser run reads the unread bytes in one pass: it leaves what the scan leaves and
presents what the scan finds. -/
structure Scans (Ts : PacketTypes) (b : BipBuffer) (r : BipBuffer × List Call) : Prop where
  consumed : b.Consumed r.1
  rest : r.1.content = (Ts.scan b.content).2
  presented : Presented Ts (Ts.scan b.content).1 r.2

namespace Scans

variable {Ts : PacketTypes} {b : BipBuffer} {r : BipBuffer × List Call}

theorem wait (wf : b.Wf) (h : frameVerdict Ts.maxPayload b.content = .wait) : Scans Ts b (b, []) := by
  have stop : Ts.scan b.content = ([], b.content) := StreamDecoder.scan_wait _ h
  refine ⟨.refl wf, ?_, ?_⟩
  · rw [stop]
  · rw [stop]
    exact .nil

/-- Bytes before the next start byte are discarded. -/
theorem garbage (wf : b.Wf) {n : Nat} (enough : n ≤ b.available) (h : ∀ x ∈ b.content.take n, x ≠ startByte)
    (later : Scans Ts (b.discard n) r) : Scans Ts b r := by
  have same : Ts.scan b.content = Ts.scan (b.discard n).content := by
    rw [(wf.discard enough).2.1]
    conv => lhs; rw [← List.take_append_drop n b.content]
    exact scan_garbage Ts _ h
  refine ⟨(wf.consumed enough).trans later.consumed, ?_, ?_⟩
  · rw [same]
    exact later.rest
  · rw [same]
    exact later.presented

/-- A decided prefix is discarded, after its frame has been presented. -/
theorem step (wf : b.Wf) {n : Nat} {out : List Frame} {calls : List Call}
    (h : frameVerdict Ts.maxPayload b.content = .read n out) (shown : Presented Ts out calls)
    (later : Scans Ts (b.discard n) r) : Scans Ts b (r.1, calls ++ r.2) := by
  have enough : n ≤ b.available := by
    rw [← wf.length_content]
    exact (frameVerdict_progress h).2
  have left := (wf.discard enough).2.1
  have split : Ts.scan b.content =
      (out ++ (Ts.scan (b.content.drop n)).1, (Ts.scan (b.content.drop n)).2) := StreamDecoder.scan_read _ h
  refine ⟨(wf.consumed enough).trans later.consumed, ?_, ?_⟩
  · rw [split, ← left]
    exact later.rest
  · rw [split, ← left]
    exact shown.append later.presented

end Scans

/-- What the loop looks at is region A. -/
theorem BipBuffer.view_eq {b : BipBuffer} (someA : 0 < b.regionASize) :
    b.getContiguousReadBuffer.bytes b.buffer = slice b.buffer b.regionAStart b.regionASize := by
  simp only [BipBuffer.getContiguousReadBuffer, gt_iff_lt, someA, if_true]
  rfl

/-- To discard nothing is to do nothing. -/
theorem BipBuffer.discard_of_pos (b : BipBuffer) (n : Nat) : (if n > 0 then b.discard n else b) = b.discard n := by
  split
  · rfl
  · rw [show n = 0 by omega]
    rfl

/-- No start byte is seen in region A. -/
theorem BipBuffer.Wf.no_start {b : BipBuffer} (wf : b.Wf)
    (found : (slice b.buffer b.regionAStart b.regionASize).findIdx? (· = startByte) = none) :
    ∀ x ∈ b.content.take b.regionASize, x ≠ startByte := by
  rw [← wf.regionA]
  simpa using List.findIdx?_eq_none_iff.mp found

/-- The first start byte in region A is the first one of the unread bytes. -/
theorem BipBuffer.Wf.start_found {b : BipBuffer} (wf : b.Wf) {scanOffset : Nat}
    (found : (slice b.buffer b.regionAStart b.regionASize).findIdx? (· = startByte) = some scanOffset) :
    scanOffset ≤ b.available ∧ (∀ x ∈ b.content.take scanOffset, x ≠ startByte) ∧
      (b.discard scanOffset).content.head? = some startByte := by
  obtain ⟨inView, isStart, noStart⟩ := List.findIdx?_eq_some_iff_getElem.mp found
  rw [length_slice wf.a_fits] at inView
  have viewLength : (slice b.buffer b.regionAStart b.regionASize).length = b.regionASize := length_slice wf.a_fits
  have within : scanOffset ≤ b.available := Nat.le_trans (Nat.le_of_lt inView) (Nat.le_add_right _ _)
  refine ⟨within, ?_, ?_⟩
  · intro x member
    rw [BipBuffer.content, List.take_append_of_le_length (by omega)] at member
    obtain ⟨j, hj, rfl⟩ := List.mem_take_iff_getElem.mp member
    simpa using noStart j (by omega)
  · rw [(wf.discard within).2.1, BipBuffer.content, List.head?_drop, List.getElem?_append_left (by omega),
      List.getElem?_eq_getElem (by omega)]
    simpa using isStart

theorem parseLoop_scans (Ts : PacketTypes) (outside : Nat → UInt8) {fuel : Nat} {b : BipBuffer} (wf : b.Wf)
    (enough : b.available < fuel) : Scans Ts b (parseLoop Ts outside fuel b b.available) := by
  induction fuel generalizing b with
  | zero => omega
  | succ fuel ih =>
    unfold parseLoop
    by_cases drained : b.available = 0
    · have empty : b.content = [] := List.length_eq_zero_iff.mp (wf.length_content.trans drained)
      rw [if_pos drained]
      exact .wait wf (by rw [empty]; rfl)
    rw [if_neg drained]
    have someA : 0 < b.regionASize := by
      apply Nat.pos_of_ne_zero
      intro h
      have := wf.a_first h
      exact drained (by simp only [BipBuffer.available]; omega)
    have inA : b.regionASize ≤ b.available := Nat.le_add_right _ _
    -- the loop goes on with what is left after `n ≥ 1` of the bytes that are left
    have goOn : ∀ {c : BipBuffer}, c.Wf → c.available ≤ b.available → ∀ n, 0 < n → n ≤ c.available →
        Scans Ts (c.discard n) (parseLoop Ts outside fuel (c.discard n) (c.available - n)) := by
      intro c wfC fewer n pos within
      have := ih (wfC.discard within).1 (by rw [wfC.available_discard within]; omega)
      rwa [wfC.available_discard within] at this
    simp only [b.view_eq someA]
    cases found : (slice b.buffer b.regionAStart b.regionASize).findIdx? (· = startByte) with
    | none =>
      simp only [length_slice wf.a_fits]
      exact .garbage wf inA (wf.no_start found) (goOn wf (Nat.le_refl _) _ someA inA)
    | some scanOffset =>
      obtain ⟨within, noStart, start⟩ := wf.start_found found
      simp only [b.discard_of_pos]
      apply Scans.garbage wf within noStart
      have rest := (wf.discard within).1
      have left := wf.available_discard within
      have fewer : (b.discard scanOffset).available ≤ b.available := left ▸ Nat.sub_le _ _
      have goOnRest : ∀ n out, frameVerdict Ts.maxPayload (b.discard scanOffset).content = .read n out →
          n ≤ (b.discard scanOffset).available ∧ Scans Ts ((b.discard scanOffset).discard n)
            (parseLoop Ts outside fuel ((b.discard scanOffset).discard n) ((b.discard scanOffset).available - n)) := by
        intro n out decided
        have bounds := frameVerdict_progress decided
        rw [rest.length_content] at bounds
        exact ⟨bounds.2, goOn rest fewer n bounds.1 bounds.2⟩
      rcases parseFrameImpl_spec Ts outside rest start with
        ⟨waits, result⟩ | ⟨skips, result⟩ | ⟨n, f, calls, decided, result, shown⟩
      · simp only [result]
        exact .wait rest waits
      · simp only [result]
        rw [← left]
        exact .step rest skips .nil (goOnRest 1 [] skips).2
      · simp only [result]
        obtain ⟨bound, later⟩ := goOnRest n [f] decided
        rw [rest.available_discard bound]
        have one : Presented Ts [f] calls := by
          have := Presented.cons shown .nil
          rwa [List.append_nil] at this
        exact .step rest decided one later

/-- **`try_parse_packets` is the one-pass reading** of the unread bytes. -/
theorem tryParsePackets_scans (Ts : PacketTypes) (outside : Nat → UInt8) {b : BipBuffer} (wf : b.Wf) :
    Scans Ts b (tryParsePackets Ts outside b) :=
  parseLoop_scans Ts outside wf (Nat.lt_succ_self _)

theorem BipBuffer.Consumed.near {b b' : BipBuffer} (consumed : b.Consumed b') {reach : Nat} (near : b.Near reach) :
    b'.Near reach := by
  intro hasB
  obtain ⟨sameB, sameEnd⟩ := consumed.regions hasB
  rw [sameEnd, BipBuffer.size, consumed.buffer]
  exact near (by omega)

/-- A stream on which the decoder waits is shorter than the largest frame. -/
theorem frameVerdict_wait_length {maxPayload : Nat} {bytes : List UInt8}
    (h : frameVerdict maxPayload bytes = .wait) : bytes.length < maxPayload + 9 := by
  unfold frameVerdict at h
  cases bytes with
  | nil => exact Nat.zero_lt_succ _
  | cons b rest =>
    simp only [List.head?_cons] at h
    split at h
    · cases h
    split at h
    · omega
    split at h
    · cases h
    split at h
    · cases h
    split at h
    · omega
    split at h <;> cases h

/-- Fewer bytes than a header from a start byte on: the parser waits there. -/
theorem tryParsePackets_waits (Ts : PacketTypes) (outside : Nat → UInt8) {b : BipBuffer} (wf : b.Wf) {off : Nat}
    (found : (b.content.take b.regionASize).findIdx? (· = startByte) = some off)
    (short : b.available < off + headerSize) : tryParsePackets Ts outside b = (b.discard off, []) := by
  rw [← wf.regionA] at found
  obtain ⟨inView, -⟩ := List.findIdx?_eq_some_iff_getElem.mp found
  rw [length_slice wf.a_fits] at inView
  have inA : b.regionASize ≤ b.available := Nat.le_add_right _ _
  have tooShort : (b.discard off).available < headerSize := by
    rw [wf.available_discard (by omega)]
    omega
  have stop : parseFrameImpl Ts outside (b.discard off) = (.incomplete, [], b.discard off) := by
    rw [parseFrameImpl, if_pos tooShort]
  rw [tryParsePackets, parseLoop, if_neg (by omega)]
  simp only [b.view_eq (Nat.zero_lt_of_lt inView), found, b.discard_of_pos, stop]

/-! ### A stream, write by write -/

theorem advanceWriteIndex_accepted (Ts : PacketTypes) (outside : Nat → UInt8) {b : BipBuffer} (wf : b.Wf)
    {data : List UInt8} (room : data.length ≤ b.getWriteBuffer.size) :
    let b' := ((b.store b.getWriteBuffer data).advanceWriteIndex data.length).1
    advanceWriteIndex Ts outside (b.store b.getWriteBuffer data) data.length =
      ((tryParsePackets Ts outside b').1, true, (tryParsePackets Ts outside b').2) := by
  have ok := (wf.advance room).1
  unfold advanceWriteIndex
  generalize (b.store b.getWriteBuffer data).advanceWriteIndex data.length = w at ok
  obtain ⟨b', flag⟩ := w
  cases ok
  rfl

theorem pushData_accepted (Ts : PacketTypes) (outside : Nat → UInt8) {b : BipBuffer} (wf : b.Wf) {data : List UInt8}
    (fits : b.Fits data.length) : pushData Ts outside b data =
      ((tryParsePackets Ts outside (b.write data).1).1, true, (tryParsePackets Ts outside (b.write data).1).2) := by
  have ok := (wf.write fits).1
  unfold pushData
  generalize b.write data = w at ok
  obtain ⟨b', flag⟩ := w
  cases ok
  rfl

theorem pushData_refused (Ts : PacketTypes) (outside : Nat → UInt8) {b : BipBuffer} {data : List UInt8}
    (full : ¬ b.Fits data.length) : pushData Ts outside b data = (b, false, []) := by
  rw [pushData, BipBuffer.write_refused full]

/-- The state of a parser that has been handed `stream` so far and has made `calls`. -/
structure Follows (Ts : PacketTypes) (stream : List UInt8) (b : BipBuffer) (calls : List Call) : Prop where
  wf : b.Wf
  size : b.size = Ts.bufferSize
  rest : b.content = (Ts.scan stream).2
  presented : Presented Ts (Ts.scan stream).1 calls

namespace Follows

variable {Ts : PacketTypes} {stream : List UInt8} {b : BipBuffer} {calls : List Call}

theorem init (Ts : PacketTypes) : Follows Ts [] (.init Ts.bufferSize) [] where
  wf := BipBuffer.wf_init _
  size := by simp [BipBuffer.init, BipBuffer.size]
  rest := by simp; rfl
  presented := .nil

/-- What is left unread is less than a largest frame, so a quarter of the buffer at most. -/
theorem quarter (follows : Follows Ts stream b calls) : 4 * b.available ≤ b.size := by
  have waits : frameVerdict Ts.maxPayload (Ts.scan stream).2 = .wait :=
    (frameDecoder Ts.maxPayload).scan_waits stream
  have short := frameVerdict_wait_length waits
  rw [← follows.rest, follows.wf.length_content, Ts.maxPayload_add] at short
  have := Ts.four_maxFrameSize_le
  rw [follows.size]
  omega

/-- Parsing after bytes have been appended. -/
theorem parse (follows : Follows Ts stream b calls) (outside : Nat → UInt8) {data : List UInt8} {b' : BipBuffer}
    (wf : b'.Wf) (size : b'.size = b.size) (content : b'.content = b.content ++ data) :
    Follows Ts (stream ++ data) (tryParsePackets Ts outside b').1 (calls ++ (tryParsePackets Ts outside b').2) := by
  have scans := tryParsePackets_scans Ts outside wf
  have whole : Ts.scan (stream ++ data) = ((Ts.scan stream).1 ++ (Ts.scan b'.content).1, (Ts.scan b'.content).2) := by
    rw [content, follows.rest]
    exact (frameDecoder Ts.maxPayload).scan_append stream data
  refine ⟨scans.consumed.wf, ?_, ?_, ?_⟩
  · rw [BipBuffer.size, scans.consumed.buffer]
    exact size.trans follows.size
  · rw [whole]
    exact scans.rest
  · rw [whole]
    exact follows.presented.append scans.presented

/-- **`push_data`** of bytes that fit. -/
theorem push (follows : Follows Ts stream b calls) (outside : Nat → UInt8) {data : List UInt8}
    (fits : b.Fits data.length) :
    (pushData Ts outside b data).2.1 = true ∧
      Follows Ts (stream ++ data) (pushData Ts outside b data).1 (calls ++ (pushData Ts outside b data).2.2) := by
  obtain ⟨-, wf, content, size⟩ := follows.wf.write fits
  rw [pushData_accepted Ts outside follows.wf fits]
  exact ⟨rfl, follows.parse outside wf size content⟩

/-- **`advance_write_index`** after a write into the write span. -/
theorem advance (follows : Follows Ts stream b calls) (outside : Nat → UInt8) {data : List UInt8}
    (room : data.length ≤ b.getWriteBuffer.size) :
    let r := advanceWriteIndex Ts outside (b.store b.getWriteBuffer data) data.length
    r.2.1 = true ∧ Follows Ts (stream ++ data) r.1 (calls ++ r.2.2) := by
  obtain ⟨-, wf, content, size⟩ := follows.wf.advance room
  intro r
  have result : r = _ := advanceWriteIndex_accepted Ts outside follows.wf room
  rw [result]
  exact ⟨rfl, follows.parse outside wf size content⟩

/-- Short pushes keep region B near the end. -/
theorem push_near (follows : Follows Ts stream b calls) (outside : Nat → UInt8) {data : List UInt8} {reach : Nat}
    (fits : b.Fits data.length) (near : b.Near reach) (short : data.length ≤ reach + 1) :
    (pushData Ts outside b data).1.Near reach := by
  have written := (follows.wf.write fits).2.1
  rw [pushData_accepted Ts outside follows.wf fits]
  exact (tryParsePackets_scans Ts outside written).consumed.near (near.write follows.wf short fits)

end Follows

/-! ### Frames of the right size -/

/-- The call that presents a frame's payload as it is. -/
def Frame.call (f : Frame) : Call := .packet f.cmd f.payload

/-- The frame's command is unknown, or its length is the size of its packet type. -/
def Frame.Sized (Ts : PacketTypes) (f : Frame) : Prop := ∀ T, Ts.find f.cmd = some T → f.payload.length = T.size

/-- The frame's command is that of a packet type. -/
def Frame.known (Ts : PacketTypes) (f : Frame) : Bool := (Ts.find f.cmd).isSome

namespace Presented

variable {Ts : PacketTypes} {fs : List Frame} {calls : List Call}

/-- Frames of the right size are presented as they are. -/
theorem exact (presented : Presented Ts fs calls) (sized : ∀ f ∈ fs, f.Sized Ts) :
    calls = (fs.filter (·.known Ts)).map Frame.call := by
  induction presented with
  | nil => rfl
  | @cons f fs calls rest first others ih =>
    have tail := ih fun g hg => sized g (List.mem_cons_of_mem _ hg)
    cases first with
    | unknown h => rw [List.nil_append, tail, List.filter_cons_of_neg (by simp [Frame.known, h])]
    | exact T h same =>
      rw [tail, List.filter_cons_of_pos (by simp [Frame.known, h])]
      rfl
    | other T h differs call typed => exact absurd (sized f List.mem_cons_self T h) differs

/-- There are as many calls as frames with a known command. -/
theorem length_calls (presented : Presented Ts fs calls) : calls.length = fs.countP (·.known Ts) := by
  induction presented with
  | nil => rfl
  | @cons f fs calls rest first others ih =>
    rw [List.length_append, List.countP_cons, ih]
    cases first with
    | unknown h => simp [Frame.known, h]
    | exact T h same => simp [Frame.known, h]; omega
    | other T h differs call typed => simp [Frame.known, h]; omega

/-- Every object handed on has the size of its type. -/
theorem typed (presented : Presented Ts fs calls) : ∀ c ∈ calls, c.Typed Ts := by
  induction presented with
  | nil => intro c h; cases h
  | @cons f fs calls rest first others ih =>
    intro c member
    rcases List.mem_append.mp member with here | later
    · cases first with
      | unknown h => cases here
      | exact T h same =>
        rw [List.mem_singleton.mp here]
        exact ⟨T, h, same⟩
      | other T h differs call typed =>
        rw [List.mem_singleton.mp here]
        exact typed
    · exact ih c later

/-- **The calls are payloads of frames of the stream**, one each and in order, exactly if
every frame with a known command has the size of its type. -/
theorem corresponds_iff (presented : Presented Ts fs calls) :
    (∃ gs, List.Sublist gs fs ∧ calls = gs.map Frame.call) ↔ ∀ f ∈ fs, f.Sized Ts := by
  constructor
  · rintro ⟨gs, sub, rfl⟩
    -- the frames that were presented are known and of the right size
    have good : ∀ g ∈ gs, g.known Ts = true ∧ g.Sized Ts := by
      intro g member
      obtain ⟨T, found, same⟩ := presented.typed g.call (List.mem_map_of_mem member)
      have known : g.known Ts = true := by rw [Frame.known, found]; rfl
      exact ⟨known, fun U hU => by rw [found] at hU; cases hU; exact same⟩
    -- and there are as many as there are known frames
    have all : gs = fs.filter (·.known Ts) := by
      have kept : gs.filter (·.known Ts) = gs := List.filter_eq_self.mpr fun g hg => (good g hg).1
      have within : gs.Sublist (fs.filter (·.known Ts)) := by
        have := sub.filter (·.known Ts)
        rwa [kept] at this
      apply within.eq_of_length
      have count := presented.length_calls
      rw [List.length_map] at count
      rw [count, List.countP_eq_length_filter]
    intro f member T found
    have known : f ∈ gs := by
      rw [all, List.mem_filter]
      exact ⟨member, by simp [Frame.known, found]⟩
    exact (good f known).2 T found
  · intro sized
    exact ⟨fs.filter (·.known Ts), List.filter_sublist, presented.exact sized⟩

end Presented

end FloridUsb.Rpl
