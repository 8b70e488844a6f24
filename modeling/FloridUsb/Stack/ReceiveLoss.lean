import FloridUsb.Rpl.ArmPackets
import FloridUsb.Stack.Receive

/-!
# Bytes lost between the ring and the parser

`drain_rx` ignores the result of `push_data`, so a chunk that does not fit the parser's
buffer is gone. In a buffer of at least 1024 bytes every chunk fits: what the parser leaves
unread is less than a quarter of the buffer, and region B only opens within a chunk of the
end. In a smaller buffer there are runs that lose bytes, whatever the packet types.
-/

namespace FloridUsb.Stack
set_option autoImplicit false

open Lib Rpl DefaultProtocol

/-- The operations of a stack that receives through its interrupt ring. -/
def RxOp.ViaRing : RxOp → Prop
  | .dma _ => False
  | _ => True

/-! ### A large buffer loses nothing -/

section Lossless

variable {target : Target} {Ts : PacketTypes}

/-- The state of a receive path that has lost nothing: what was delivered has been handed to
the parser or is still in the ring, and region B of the parser is near the end. -/
structure Lossless (Ts : PacketTypes) (s : RxPath target) (log : List RxEvent) : Prop where
  receiving : Receiving Ts s log
  near : s.parser.Near 255
  complete : deliveredBytes log = handedBytes log ++ s.rxRing.content
  none_lost : ∀ data, .lost data ∉ log

theorem Lossless.init (target : Target) (Ts : PacketTypes) : Lossless Ts (.init target Ts) [] where
  receiving := Follows.init Ts
  near := fun hasB => absurd hasB (Nat.lt_irrefl 0)
  complete := by simp [RxPath.init]
  none_lost := fun _ h => by cases h

theorem Lossless.feed {s : RxPath target} {h : List RxEvent} (data : List UInt8) (lossless : Lossless Ts s h) :
    Lossless Ts (s.isrFeed data).1 (h ++ (s.isrFeed data).2) := by
  refine ⟨lossless.receiving.feed data, lossless.near, ?_, ?_⟩
  · have complete := lossless.complete
    by_cases fits : s.rxRing.available + data.length ≤ capacity 12
    · obtain ⟨ok, content⟩ := s.rxRing.write_accepted fits
      simp [RxPath.isrFeed, RxEvent.delivered, RxEvent.handed, ok, content, complete]
    · obtain ⟨full, content⟩ := s.rxRing.write_refused fits
      simp [RxPath.isrFeed, RxEvent.delivered, RxEvent.handed, full, content, complete]
  · intro lostData member
    rcases List.mem_append.mp member with old | new
    · exact lossless.none_lost lostData old
    · simp [RxPath.isrFeed] at new

/-- A chunk of the ring always fits a parser buffer of four chunks. -/
theorem Lossless.round (large : 1024 ≤ Ts.bufferSize) {s : RxPath target} {h : List RxEvent}
    (lossless : Lossless Ts s h) : Lossless Ts (s.drainRound Ts).1 (h ++ (s.drainRound Ts).2) := by
  have receiving := lossless.receiving.round
  have short : (s.rxRing.content.take 256).length ≤ 255 + 1 := by
    rw [List.length_take]
    omega
  have wf : s.parser.Wf := Follows.wf lossless.receiving
  have size : s.parser.size = Ts.bufferSize := Follows.size lossless.receiving
  have room : s.parser.Fits (s.rxRing.content.take 256).length :=
    lossless.near.fits wf short (by omega) (Follows.quarter lossless.receiving)
  obtain ⟨rxRing, rest, ⟨-, result⟩ | ⟨full, -⟩⟩ := s.drainRound_cases Ts wf
  swap
  · exact absurd room full
  rw [result] at receiving ⊢
  refine ⟨receiving, Follows.push_near lossless.receiving target.outside room lossless.near short, ?_, ?_⟩
  · simp [RxEvent.delivered, RxEvent.handed, lossless.complete, rest]
  · intro lostData member
    rcases List.mem_append.mp member with old | new
    · exact lossless.none_lost lostData old
    · simp at new

/-- **Nothing is lost** in a run through the ring, if the largest frame has 129 bytes or more. -/
theorem receiver_lossless (target : Target) {Ts : PacketTypes} (large : 129 ≤ Ts.maxFrameSize) {ops : List RxOp}
    (viaRing : ∀ o ∈ ops, o.ViaRing) :
    Lossless Ts ((receiver target Ts).exec (.init target Ts) ops)
      ((receiver target Ts).trace (.init target Ts) ops) := by
  have buffer := Ts.bufferSize_large_iff.mpr large
  refine (receiver target Ts).run_invariant_of (Lossless.init target Ts) (fun s h o ring lossless => ?_) ops viaRing
  refine receiver_step (fun _ _ data l => l.feed data) (fun _ _ _ l => l.round buffer) (fun data dma => ?_) lossless
  rw [dma] at ring
  exact ring.elim

end Lossless

/-! ### A small buffer -/

section Small

variable {target : Target}

/-- `drain_rx` on an empty ring. -/
theorem RxPath.drainLoop_drained {Ts : PacketTypes} (fuel : Nat) {s : RxPath target}
    (drained : s.rxRing.available = 0) :
    RxPath.drainLoop Ts fuel s = (s, []) := by
  cases fuel with
  | zero => rfl
  | succ fuel => rw [drainLoop, if_pos drained]

/-- A chunk fed to an empty ring and drained is one `push_data`. -/
theorem feed_cycle (Ts : PacketTypes) {s : RxPath target} (drained : s.rxRing.content = []) (wf : s.parser.Wf)
    {data : List UInt8}
    (new : data ≠ []) (short : data.length ≤ 256) :
    let M := receiver target Ts
    (M.exec s [.isrFeed data, .runOneCycle]).rxRing.content = [] ∧
      (s.parser.Fits data.length → (M.exec s [.isrFeed data, .runOneCycle]).parser =
        (pushData Ts target.outside s.parser data).1) ∧
      (¬ s.parser.Fits data.length → .lost data ∈ M.trace s [.isrFeed data, .runOneCycle]) := by
  intro M
  have empty : s.rxRing.available = 0 := by rw [← s.rxRing.length_content, drained]; rfl
  have room : s.rxRing.available + data.length ≤ capacity 12 := by
    rw [empty]
    exact Nat.le_trans (by omega) (show 256 ≤ capacity 12 by decide)
  have fed : (s.isrFeed data).1.rxRing.content = data := by
    rw [RxPath.isrFeed, (s.rxRing.write_accepted room).2, drained, List.nil_append]
  have pos := List.length_pos_iff.mpr new
  have pending : (s.isrFeed data).1.rxRing.available = data.length := by
    rw [← ISRRingBuffer.length_content, fed]
  have whole : data.take 256 = data := List.take_of_length_le short
  obtain ⟨rxRing, rest, result⟩ := (s.isrFeed data).1.drainRound_cases Ts wf
  rw [fed, whole] at result
  rw [fed, List.drop_eq_nil_of_le short] at rest
  have after : rxRing.available = 0 := by rw [← rxRing.length_content, rest]; rfl
  -- the cycle is this round
  have cycle : (s.isrFeed data).1.drainRx Ts = (s.isrFeed data).1.drainRound Ts := by
    obtain ⟨n, hn⟩ : ∃ n, (s.isrFeed data).1.rxRing.available = n + 1 := ⟨data.length - 1, by omega⟩
    have next : ((s.isrFeed data).1.drainRound Ts).1.rxRing.available = 0 := by
      rcases result with ⟨-, r⟩ | ⟨-, r⟩ <;> rw [r] <;> exact after
    rw [RxPath.drainRx, hn, RxPath.drainLoop, if_neg (by omega)]
    simp only [RxPath.drainLoop_drained n next, List.append_nil]
  have exec : M.exec s [.isrFeed data, .runOneCycle] = ((s.isrFeed data).1.drainRound Ts).1 := by
    rw [← cycle]
    rfl
  have trace : M.trace s [.isrFeed data, .runOneCycle] =
      (s.isrFeed data).2 ++ ((s.isrFeed data).1.drainRound Ts).2 := by
    rw [← cycle]
    show _ ++ (_ ++ []) = _
    rw [List.append_nil]
    rfl
  rw [exec, trace]
  rcases result with ⟨fits, r⟩ | ⟨full, r⟩
  · rw [r]
    exact ⟨rest, fun _ => rfl, fun h => absurd fits h⟩
  · rw [r]
    exact ⟨rest, fun h => absurd h full, fun _ => List.mem_append_right _ List.mem_cons_self⟩

/-- `n` bytes of noise and a start byte. -/
def noise (n : Nat) : List UInt8 := List.replicate n 0 ++ [startByte]

theorem length_noise (n : Nat) : (noise n).length = n + 1 := by
  rw [noise, List.length_append, List.length_replicate, List.length_singleton]

theorem noise_ne_nil (n : Nat) : noise n ≠ [] := List.append_ne_nil_of_right_ne_nil _ (List.cons_ne_nil _ _)

theorem findIdx_noise (n : Nat) : (noise n).findIdx? (· = startByte) = some n := by
  induction n with
  | zero => rfl
  | succ n ih =>
    have shape : noise (n + 1) = 0 :: noise n := rfl
    rw [shape, List.findIdx?_cons, ih]
    rfl

theorem drop_noise (n : Nat) : (noise n).drop n = [startByte] := List.drop_left' List.length_replicate

/-- The parser's buffer with a start byte at `pos` after `pos` bytes of noise: what is left
of a first chunk. -/
theorem push_noise (target : Target) {Ts : PacketTypes} {pos : Nat} (some_ : 0 < pos)
    (room : (BipBuffer.init Ts.bufferSize).Fits (pos + 1)) :
    let b := (pushData Ts target.outside (.init Ts.bufferSize) (noise pos)).1
    b.Wf ∧ b.size = Ts.bufferSize ∧ b.content = [startByte] ∧ b.regionAStart = pos ∧ b.regionASize = 1 ∧
      b.regionBSize = 0 ∧ pos + 1 ≤ Ts.bufferSize := by
  have wf := BipBuffer.wf_init Ts.bufferSize
  have new := noise_ne_nil pos
  rw [← length_noise] at room
  rcases wf.write_cases new room with ⟨noB, inA, done⟩ | ⟨bad, -⟩
  swap
  · rw [length_noise] at bad
    simp [BipBuffer.init] at bad
  have extended := wf.extendA noB new inA
  rw [BipBuffer.content_init, List.nil_append] at extended
  have startA : ((BipBuffer.init Ts.bufferSize).extendA (noise pos)).regionAStart = 0 := rfl
  have sizeA : ((BipBuffer.init Ts.bufferSize).extendA (noise pos)).regionASize = pos + 1 := by
    show 0 + (noise pos).length = _
    rw [length_noise, Nat.zero_add]
  have sizeB : ((BipBuffer.init Ts.bufferSize).extendA (noise pos)).regionBSize = 0 := rfl
  have written : ((BipBuffer.init Ts.bufferSize).write (noise pos)).1 =
      (BipBuffer.init Ts.bufferSize).extendA (noise pos) := by rw [done]
  rw [pushData_accepted Ts target.outside wf room, written]
  generalize (BipBuffer.init Ts.bufferSize).extendA (noise pos) = e at extended startA sizeA sizeB
  obtain ⟨wfE, content, size⟩ := extended
  have available : e.available = pos + 1 := by rw [BipBuffer.available, sizeA, sizeB]
  have found : (e.content.take e.regionASize).findIdx? (· = startByte) = some pos := by
    rw [content, List.take_of_length_le (by simp only [length_noise]; omega), findIdx_noise]
  have parsed : tryParsePackets Ts target.outside e = (e.discard pos, []) :=
    tryParsePackets_waits Ts target.outside wfE found (by rw [available, headerSize]; omega)
  obtain ⟨wf', left, buffer, -⟩ := wfE.discard (show pos ≤ e.available by omega)
  have kept : e.discard pos = { e with regionAStart := pos, regionASize := 1 } := by
    simp only [BipBuffer.discard, available, startA, sizeA]
    rw [if_neg (by omega), if_neg (by omega)]
    have within : pos ≤ pos + 1 := by omega
    have one : pos + 1 - pos = 1 := by omega
    simp [within, one]
  simp only [parsed]
  refine ⟨wf', ?_, ?_, ?_⟩
  · rw [BipBuffer.size, buffer]
    exact size.trans List.length_replicate
  · rw [left, content, drop_noise]
  · rw [kept]
    refine ⟨rfl, rfl, sizeB, ?_⟩
    have := wfE.a_fits
    rw [size, startA, sizeA] at this
    simpa [BipBuffer.init, BipBuffer.size] using this

/-- One more byte behind it, and a buffer of 512 bytes or less has no room for a full chunk:
neither behind the two bytes nor before them. -/
theorem small_buffer_refuses (target : Target) (Ts : PacketTypes) {b : BipBuffer} (wf : b.Wf)
    (content : b.content = [startByte]) (startA : b.regionAStart = 255) (sizeA : b.regionASize = 1)
    (noB : b.regionBSize = 0) (large : 256 ≤ b.size) (small : b.size ≤ 512) :
    b.Fits 1 ∧ (pushData Ts target.outside b [0]).1.Wf ∧ ¬ (pushData Ts target.outside b [0]).1.Fits 256 := by
  have fits : b.Fits [(0 : UInt8)].length := .inr ⟨noB, by rw [startA]; decide⟩
  obtain ⟨-, wf', content', size'⟩ := wf.write fits
  rw [content] at content'
  have available : (b.write [0]).1.available = 2 := by rw [← wf'.length_content, content']; rfl
  refine ⟨fits, ?_⟩
  rw [pushData_accepted Ts target.outside wf fits]
  -- the parser leaves the two bytes where they are
  have waits : 0 < (b.write [0]).1.regionASize →
      tryParsePackets Ts target.outside (b.write [0]).1 = ((b.write [0]).1.discard 0, []) := by
    intro someA
    refine tryParsePackets_waits Ts target.outside wf' ?_ (by rw [available, headerSize]; omega)
    rw [content']
    obtain ⟨n, hn⟩ : ∃ n, (b.write [0]).1.regionASize = n + 1 := ⟨_, (Nat.sub_add_cancel someA).symm⟩
    rw [hn]
    rfl
  have same : (b.write [0]).1.discard 0 = (b.write [0]).1 := rfl
  rcases wf.write_cases (List.cons_ne_nil _ _) fits with ⟨-, -, done⟩ | ⟨-, -, done⟩
  · have start' : (b.write [0]).1.regionAStart = 255 := by rw [done]; exact startA
    have sizeA' : (b.write [0]).1.regionASize = 2 := by
      rw [done]
      show b.regionASize + 1 = 2
      omega
    have noB' : (b.write [0]).1.regionBSize = 0 := by rw [done]; exact noB
    simp only [waits (by omega), same]
    refine ⟨wf', ?_⟩
    rintro (room | ⟨-, before⟩)
    · simp only [BipBuffer.getWriteBuffer, noB', start', sizeA', size', Nat.lt_irrefl, gt_iff_lt, if_false] at room
      split at room
      · rw [Span.size_at] at room
        omega
      · rw [if_pos (by omega), Span.size_at] at room
        omega
    · omega
  · have start' : (b.write [0]).1.regionAStart = 255 := by rw [done]; exact startA
    have sizeA' : (b.write [0]).1.regionASize = 1 := by rw [done]; exact sizeA
    have someB : (b.write [0]).1.regionBSize = 1 := by
      rw [done]
      show b.regionBSize + 1 = 1
      omega
    simp only [waits (by omega), same]
    refine ⟨wf', ?_⟩
    rintro (room | ⟨noB', -⟩)
    · simp only [BipBuffer.getWriteBuffer, someB, start', gt_iff_lt, Nat.zero_lt_one, if_true, Span.size_at] at room
      omega
    · omega

/-- A run that loses a chunk in a buffer of 512 bytes or less: noise that ends in a start
byte, one byte, a full chunk, each drained by a cycle. -/
def losingRun : List RxOp :=
  [.isrFeed (noise 255), .runOneCycle, .isrFeed [0], .runOneCycle, .isrFeed (List.replicate 256 0), .runOneCycle]

theorem losingRun_loses (target : Target) {Ts : PacketTypes} (small : Ts.bufferSize ≤ 512) :
    ∃ data, RxEvent.lost data ∈ (receiver target Ts).trace (.init target Ts) losingRun := by
  have split : losingRun = [.isrFeed (noise 255), .runOneCycle] ++
      ([.isrFeed [0], .runOneCycle] ++ [.isrFeed (List.replicate 256 0), .runOneCycle]) := rfl
  rw [split, Machine.trace_append, Machine.trace_append]
  obtain ⟨drained1, taken1, lost1⟩ := feed_cycle Ts (s := .init target Ts) (by simp [RxPath.init])
    (BipBuffer.wf_init _) (noise_ne_nil 255) (by simp only [length_noise]; omega)
  by_cases fits1 : (RxPath.init target Ts).parser.Fits (noise 255).length
  swap
  · exact ⟨_, List.mem_append_left _ (lost1 fits1)⟩
  replace taken1 := taken1 fits1
  generalize (receiver target Ts).exec (.init target Ts) [.isrFeed (noise 255), .runOneCycle] = s1 at drained1 taken1
  rw [length_noise] at fits1
  obtain ⟨wf1, size1, content1, start1, sizeA1, noB1, large⟩ := push_noise target (by decide) fits1
  have parser1 : s1.parser = (pushData Ts target.outside (.init Ts.bufferSize) (noise 255)).1 := taken1
  rw [← parser1] at wf1 size1 content1 start1 sizeA1 noB1
  obtain ⟨fits2, wf2, full⟩ := small_buffer_refuses target Ts wf1 content1 start1 sizeA1 noB1 (by omega) (by omega)
  obtain ⟨drained2, taken2, -⟩ := feed_cycle Ts drained1 wf1 (show [(0 : UInt8)] ≠ [] by simp) (by simp)
  rw [← taken2 fits2] at wf2 full
  generalize (receiver target Ts).exec s1 [.isrFeed [0], .runOneCycle] = s2 at drained2 wf2 full ⊢
  have chunk : (List.replicate 256 (0 : UInt8)).length = 256 := List.length_replicate
  obtain ⟨-, -, lost3⟩ := feed_cycle Ts drained2 wf2 (List.ne_nil_of_length_pos (by omega)) (Nat.le_of_eq chunk)
  exact ⟨_, List.mem_append_right _ (List.mem_append_right _ (lost3 (by rwa [chunk])))⟩

end Small

/-! ### When bytes are lost -/

/-- In this run every byte the ring took is handed to the parser, or still in the ring: no
`push_data` fails. -/
def HandsOver (target : Target) (Ts : PacketTypes) (ops : List RxOp) : Prop :=
  let log := (receiver target Ts).trace (.init target Ts) ops
  (∀ data, .lost data ∉ log) ∧
    deliveredBytes log = handedBytes log ++ ((receiver target Ts).exec (.init target Ts) ops).rxRing.content

/-- **Received bytes are never lost exactly if the largest frame has at least 129 bytes**,
that is, if the parser's buffer has at least 1024. -/
theorem hands_over_iff (Ts : PacketTypes) :
    (∀ (target : Target) (ops : List RxOp), (∀ o ∈ ops, o.ViaRing) → HandsOver target Ts ops) ↔
      129 ≤ Ts.maxFrameSize := by
  constructor
  · intro handsOver
    apply Nat.le_of_not_lt
    intro small
    have buffer : Ts.bufferSize ≤ 512 := by
      have := bitCeil_le_two_pow.mpr (show Ts.maxFrameSize * 4 ≤ 2 ^ 9 by omega)
      simpa [PacketTypes.bufferSize] using this
    have viaRing : ∀ o ∈ losingRun, o.ViaRing := by
      simp only [losingRun, List.forall_mem_cons, RxOp.ViaRing, List.not_mem_nil, false_implies, implies_true, and_self]
    let target : Target := ⟨16, Nat.le_refl 16, fun _ => 0⟩
    obtain ⟨data, lost⟩ := losingRun_loses target buffer
    exact (handsOver target losingRun viaRing).1 data lost
  · intro large target ops viaRing
    have lossless := receiver_lossless target large viaRing
    exact ⟨lossless.none_lost, lossless.complete⟩

/-- The packets of `receive_serial.cpp` make a buffer of 128 bytes: the first full chunk is lost. -/
theorem receiveSerial_loses_chunk :
    let target : Target := ⟨32, by decide, fun _ => 0⟩
    let ops : List RxOp := [.isrFeed (List.replicate 256 0), .runOneCycle]
    (∀ o ∈ ops, o.ViaRing) ∧ ¬ HandsOver target Arm.receiveSerial ops := by
  intro target ops
  have viaRing : ∀ o ∈ ops, o.ViaRing := by
    simp only [ops, List.forall_mem_cons, RxOp.ViaRing, List.not_mem_nil, false_implies, implies_true, and_self]
  refine ⟨viaRing, fun handsOver => ?_⟩
  have chunk : (List.replicate 256 (0 : UInt8)).length = 256 := List.length_replicate
  have size : Arm.receiveSerial.bufferSize = 128 := by decide
  have full : ¬ (RxPath.init target Arm.receiveSerial).parser.Fits (List.replicate 256 (0 : UInt8)).length := by
    rw [chunk]
    rintro (room | ⟨-, before⟩)
    · simp [RxPath.init, BipBuffer.getWriteBuffer, BipBuffer.init, BipBuffer.size, size] at room
    · simp [RxPath.init, BipBuffer.init] at before
  obtain ⟨-, -, lost⟩ := feed_cycle Arm.receiveSerial (s := .init target Arm.receiveSerial) (by simp [RxPath.init])
    (BipBuffer.wf_init _) (List.ne_nil_of_length_pos (by omega)) (Nat.le_of_eq chunk)
  exact handsOver.1 _ (lost full)

end FloridUsb.Stack
