import FloridUsb.Lib.Resync
import FloridUsb.Stack.ReceiveStream

/-!
# Frames in a noisy stream

What the receive path makes of a stream of frames with noise between them, such as bytes of frames
that were damaged. The parser has no memory of what it skipped: unless the noise contains a valid
frame, or completes one, every frame is presented, but for those at the end of the stream that wait
for a false header to be completed.
-/

namespace FloridUsb.Stack
set_option autoImplicit false

open Lib Rpl StreamDecoder

variable {Ts : PacketTypes}

/-- The frame of a packet under a sequence number. -/
def sentFrame (sent : UInt8 × Packet Ts) : List UInt8 := frameBytes sent.1 sent.2.traits.cmd sent.2.bytes

/-- What is read of it. -/
def sentContent (sent : UInt8 × Packet Ts) : List Frame := [sent.2.content]

theorem sentFrame_whole {sent : UInt8 × Packet Ts} (word : sent.2.traits.frameSize < 2 ^ 16) :
    (frameDecoder Ts.maxPayload).verdict (sentFrame sent) = .read (sentFrame sent).length (sentContent sent) := by
  have size := sent.2.length_bytes
  have fits : sent.2.bytes.length ≤ Ts.maxPayload := by
    rw [size]
    exact PacketTypes.size_le_maxPayload sent.2.mem
  simp only [PacketTraits.frameSize] at word
  exact frameVerdict_frameBytes sent.1 sent.2.traits.cmd fits (by omega)

theorem content_sized (packet : Packet Ts) : packet.content.Sized Ts := by
  intro T found
  have same : some packet.traits = some T := (PacketTypes.find_mem packet.mem).symm.trans found
  rw [← Option.some.inj same]
  exact packet.length_bytes

theorem content_known (packet : Packet Ts) : packet.content.known Ts = true := by
  show (Ts.find packet.traits.cmd).isSome = true
  rw [PacketTypes.find_mem packet.mem]
  rfl

/-- **Noise costs no frame.** If the bytes that reach the parser, in chunks of any size and by
either path, are frames of its packet types with noise around them, and nothing that begins in the
noise is a valid frame, the calls are those of the first frames of the stream, in order; the
others together are shorter than a largest frame. -/
theorem noise_costs_no_frame (target : Target) (ops : List RxOp) {pieces : List (List UInt8 × UInt8 × Packet Ts)}
    {last : List UInt8} (word : ∀ p ∈ pieces, p.2.2.traits.frameSize < 2 ^ 16)
    (stream : handedBytes ((receiver target Ts).trace (.init target Ts) ops) = noisy sentFrame pieces last)
    (unforged : (frameDecoder Ts.maxPayload).Unforged sentFrame last pieces) :
    ∃ done rest, pieces = done ++ rest ∧
      callsOf ((receiver target Ts).trace (.init target Ts) ops) = done.map (fun p => p.2.2.content.call) ∧
      (rest.flatMap fun p => sentFrame p.2).length < Ts.maxFrameSize := by
  have follows : Receiving Ts _ _ := receiver_follows target Ts ops
  obtain ⟨done, rest, split, emitted, unread⟩ :=
    (frameDecoder Ts.maxPayload).scan_noisy (fun p member => sentFrame_whole (word p member)) unforged
  rw [← stream] at emitted unread
  refine ⟨done, rest, split, ?_, ?_⟩
  · have frames : (Ts.scan (handedBytes ((receiver target Ts).trace (.init target Ts) ops))).1 =
        done.map fun p => p.2.2.content := emitted.trans List.map_eq_flatMap.symm
    have presented := follows.presented
    rw [frames] at presented
    have exact_ := presented.exact fun f member => by
      obtain ⟨p, -, rfl⟩ := List.mem_map.mp member
      exact content_sized p.2.2
    have all : (done.map fun p => p.2.2.content).filter (·.known Ts) = done.map fun p => p.2.2.content := by
      rw [List.filter_eq_self]
      intro f member
      obtain ⟨p, -, rfl⟩ := List.mem_map.mp member
      exact content_known p.2.2
    rw [exact_, all, List.map_map]
    rfl
  · have waits := frameVerdict_wait_length ((frameDecoder Ts.maxPayload).scan_waits
      (handedBytes ((receiver target Ts).trace (.init target Ts) ops)))
    rw [Ts.maxPayload_add] at waits
    exact Nat.lt_of_le_of_lt unread waits

/-- A start byte and a false length before an ACK, and the beginning of a frame behind it. -/
theorem noise_costs_no_frame_ack :
    let target : Target := ⟨32, by decide, fun _ => 0⟩
    let ack : Packet Arm.testArm := ⟨ackPacket, [1, 0, 0, 0, 3, 0x61, 0], by decide, rfl⟩
    let pieces : List (List UInt8 × UInt8 × Packet Arm.testArm) := [([0xA5, 0xFF], 3, ack)]
    let ops : List RxOp := [.isrFeed ([0xA5, 0xFF] ++ sentFrame (3, ack)), .runOneCycle, .dma [0xA5]]
    ∃ done rest, pieces = done ++ rest ∧
      callsOf ((receiver target Arm.testArm).trace (.init target Arm.testArm) ops) =
        done.map (fun p => p.2.2.content.call) ∧
      (rest.flatMap fun p => sentFrame p.2).length < Arm.testArm.maxFrameSize := by
  intro target ack pieces ops
  have skips : ∀ xs : List UInt8, (match (frameDecoder Arm.testArm.maxPayload).verdict xs with
      | .wait => true
      | .read n out => decide (n = 1 ∧ out = [])) = true → (frameDecoder Arm.testArm.maxPayload).Skips xs := by
    intro xs all n out decided
    rw [decided] at all
    exact of_decide_eq_true all
  have unforged : (frameDecoder Arm.testArm.maxPayload).Unforged sentFrame [0xA5] [([0xA5, 0xFF], 3, ack)] := by
    constructor
    · intro i inside
      match i with
      | 0 | 1 => exact skips _ (by decide +kernel)
    · intro i inside
      match i with
      | 0 => exact skips _ (by decide +kernel)
  have word : ∀ p ∈ pieces, p.2.2.traits.frameSize < 2 ^ 16 := by decide
  have stream : handedBytes ((receiver target Arm.testArm).trace (.init target Arm.testArm) ops) =
      noisy sentFrame pieces [0xA5] := by decide +kernel
  exact noise_costs_no_frame target ops word stream unforged

end FloridUsb.Stack
