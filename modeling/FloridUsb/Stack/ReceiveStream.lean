import FloridUsb.Rpl.Serializer
import FloridUsb.Stack.ReceiveLoss

/-!
# What the receive path presents

The calls of `handle_packet_internal` against the one-pass reading of the bytes handed to the parser. Neither
the parser nor the dispatcher nor the hook compares the length of a frame with the size of
its packet type, so the calls are the frames' payloads exactly when the lengths agree
(`presented_exactly_iff`). For such a stream the receive path is the scanner, however the
bytes are cut up on their way (`receiver_refines_scan`).
-/

namespace FloridUsb.Stack
set_option autoImplicit false

open Lib Rpl DefaultProtocol

/-- **Only payloads are presented**, each of one frame and in the frames' order, exactly in
the runs in which every frame with a known command, of those that one pass over the bytes handed to
the parser finds, has the length of its packet type. -/
theorem presented_exactly_iff (target : Target) (Ts : PacketTypes) (ops : List RxOp) :
    let log := (receiver target Ts).trace (.init target Ts) ops
    (∃ fs, List.Sublist fs (Ts.scan (handedBytes log)).1 ∧ callsOf log = fs.map Frame.call) ↔
      ∀ f ∈ (Ts.scan (handedBytes log)).1, f.Sized Ts :=
  Presented.corresponds_iff (Follows.presented (receiver_follows target Ts ops))

/-- An ACK without its status byte, as a peer with another `AckPacket` sends it: the first
checksum byte is presented as the status. -/
theorem short_ack_presents_checksum :
    let target : Target := ⟨32, by decide, fun _ => 0⟩
    let log := (receiver target Arm.receiveSerial).trace (.init target Arm.receiveSerial)
      [.dma (frameBytes 0 0x6FF0 [1, 0, 0, 0, 0x03, 0x61])]
    ¬ ∃ fs, List.Sublist fs (Arm.receiveSerial.scan (handedBytes log)).1 ∧ callsOf log = fs.map Frame.call := by
  intro target log
  have handed : handedBytes log = frameBytes 0 0x6FF0 [1, 0, 0, 0, 0x03, 0x61] := by decide +kernel
  have follows : Receiving _ _ _ := receiver_follows target Arm.receiveSerial
    [.dma (frameBytes 0 0x6FF0 [1, 0, 0, 0, 0x03, 0x61])]
  have scanned : Arm.receiveSerial.scan (frameBytes 0 0x6FF0 [1, 0, 0, 0, 0x03, 0x61]) =
      ([⟨0x6FF0, [1, 0, 0, 0, 0x03, 0x61]⟩], []) := scan_frameBytes _ _ _ (by decide) (by decide)
  rw [Presented.corresponds_iff (Follows.presented follows), handed, scanned]
  intro sized
  have found : Arm.receiveSerial.find 0x6FF0 = some ackPacket := by decide
  exact absurd (sized _ List.mem_cons_self _ found) (by decide)

/-! ### The whole path is the scanner -/

/-- Through DMA writes the parser gets what is delivered. -/
theorem receiver_dma (target : Target) {Ts : PacketTypes} {ops : List RxOp}
    (viaDma : ∀ o ∈ ops, ∃ data, o = .dma data) :
    let log := (receiver target Ts).trace (.init target Ts) ops
    deliveredBytes log = handedBytes log := by
  have start : Receiving Ts (.init target Ts) [] ∧ deliveredBytes [] = handedBytes [] := ⟨Follows.init Ts, rfl⟩
  refine ((receiver target Ts).run_invariant_of (I := fun s log => Receiving Ts s log ∧
    deliveredBytes log = handedBytes log) start (fun s h o dma state => ?_) ops viaDma).2
  obtain ⟨data, rfl⟩ := dma
  refine ⟨state.1.dma data, ?_⟩
  show deliveredBytes (h ++ (s.dma Ts data).2) = handedBytes (h ++ (s.dma Ts data).2)
  rw [s.dma_eq data (Follows.wf state.1)]
  simp [RxEvent.delivered, RxEvent.handed, state.2]

/-- **The receive path refines the scanner.** Once the ring is drained, the calls are the
frames that one pass over the delivered bytes finds, those with a known command, in order:
for bytes through the ring in chunks of any size if the largest frame has at least 129
bytes, and for bytes written into the parser's spans always. -/
theorem receiver_refines_scan (target : Target) (Ts : PacketTypes) (ops : List RxOp)
    (mode : (129 ≤ Ts.maxFrameSize ∧ ∀ o ∈ ops, o.ViaRing) ∨ ∀ o ∈ ops, ∃ data, o = .dma data)
    (drained : ((receiver target Ts).exec (.init target Ts) ops).rxRing.available = 0)
    (sized : ∀ f ∈ (Ts.scan (deliveredBytes ((receiver target Ts).trace (.init target Ts) ops))).1, f.Sized Ts) :
    callsOf ((receiver target Ts).trace (.init target Ts) ops) =
      ((Ts.scan (deliveredBytes ((receiver target Ts).trace (.init target Ts) ops))).1.filter (·.known Ts)).map
        Frame.call := by
  have handed : deliveredBytes ((receiver target Ts).trace (.init target Ts) ops) =
      handedBytes ((receiver target Ts).trace (.init target Ts) ops) := by
    rcases mode with ⟨large, viaRing⟩ | viaDma
    · have empty := List.length_eq_zero_iff.mp ((ISRRingBuffer.length_content _).trans drained)
      rw [(receiver_lossless target large viaRing).complete, empty, List.append_nil]
    · exact receiver_dma target viaDma
  rw [handed] at sized ⊢
  exact (Follows.presented (receiver_follows target Ts ops)).exact sized

/-- An ACK through the ring, cut inside its header. -/
theorem receiver_refines_scan_ack :
    let target : Target := ⟨32, by decide, fun _ => 0⟩
    let frame := frameBytes 7 0x6FF0 [1, 0, 0, 0, 0x03, 0x61, 0]
    let ops : List RxOp := [.isrFeed (0 :: frame.take 5), .runOneCycle, .isrFeed (frame.drop 5), .runOneCycle]
    callsOf ((receiver target Arm.armPackets).trace (.init target Arm.armPackets) ops) =
      [.packet 0x6FF0 [1, 0, 0, 0, 0x03, 0x61, 0]] := by
  intro target frame ops
  have viaRing : ∀ o ∈ ops, o.ViaRing := by simp [ops, RxOp.ViaRing]
  have drained : ((receiver target Arm.armPackets).exec (.init target Arm.armPackets) ops).rxRing.available = 0 := by
    decide +kernel
  have delivered : deliveredBytes ((receiver target Arm.armPackets).trace (.init target Arm.armPackets) ops) =
      0 :: frame := by decide +kernel
  have scanned : Arm.armPackets.scan (0 :: frame) = ([⟨0x6FF0, [1, 0, 0, 0, 0x03, 0x61, 0]⟩], []) :=
    (scan_garbage Arm.armPackets frame (List.forall_mem_singleton.mpr (show (0 : UInt8) ≠ startByte by decide))).trans
      (scan_frameBytes _ _ _ (by decide +kernel) (by decide))
  have found : Arm.armPackets.find 0x6FF0 = some ackPacket := by decide +kernel
  have sized : ∀ f ∈ (Arm.armPackets.scan (0 :: frame)).1, f.Sized Arm.armPackets := by
    rw [scanned]
    intro f member T hT
    rw [List.mem_singleton.mp member, found] at hT
    rw [List.mem_singleton.mp member, ← Option.some_inj.mp hT]
    rfl
  have refined := receiver_refines_scan target Arm.armPackets ops (.inl ⟨by decide +kernel, viaRing⟩) drained
    (by rw [delivered]; exact sized)
  rw [delivered, scanned] at refined
  rw [refined]
  simp [Frame.known, found, Frame.call]

end FloridUsb.Stack
