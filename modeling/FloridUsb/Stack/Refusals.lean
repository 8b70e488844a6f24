import FloridUsb.Stack.Storage

/-!
# Refused enqueues

A call that returns false should leave the transmit queue alone. Frames do: their length is
looked at before room is made for them, and a response that is not enqueued is not cached. Raw
bytes do not: `enqueue_pending_frame` drops a telemetry entry from a full queue first and
serializes afterwards, so bytes that cannot be serialized cost a telemetry frame
(`refusals_iff`). The session hands such bytes over for every request type of more than 256
bytes, and for no other (`entry_serializable_iff`).
-/

namespace FloridUsb.Stack
set_option autoImplicit false

open Lib Rpl Session

section Refusals

variable {Ts : PacketTypes}

/-- If nothing is enqueued, the queue is what it was. -/
def LeavesQueue (s : TxPath) (r : TxPath × Option TxEntry) : Prop := r.2 = none → r.1.queue = s.queue

/-- The call returns false: it logs no packet that is put into the queue. -/
def Refused (r : ProtocolStack Ts × List StackEvent) : Prop := ∀ content entry, .enqueued content entry ∉ r.2

theorem dropOneTelemetry_isSome_iff {queue : List TxEntry} :
    (dropOneTelemetry queue).isSome ↔ ∃ e ∈ queue, e.telemetry = true := by
  rw [Option.isSome_iff_ne_none, Ne, dropOneTelemetry_eq_none]
  simp only [not_forall, Bool.not_eq_false, exists_prop]

/-- **When refused raw bytes leave the queue alone**: always, but on a full queue with telemetry
and with bytes that cannot be serialized. -/
theorem enqueuePendingFrame_leaves_iff (s : TxPath) (cmd : UInt16) (raw : List UInt8) :
    LeavesQueue s (s.enqueuePendingFrame Ts cmd raw) ↔
      (TX_QUEUE_CAP ≤ s.queue.length → (∃ e ∈ s.queue, e.telemetry = true) → Serializable Ts cmd raw) := by
  constructor
  · intro leaves full telemetry
    apply Classical.byContradiction
    intro unserializable
    obtain ⟨rest, dropped⟩ := Option.isSome_iff_exists.mp (dropOneTelemetry_isSome_iff.mpr telemetry)
    have evicts : s.enqueuePendingFrame Ts cmd raw = ({ s with queue := rest }, none) := by
      rw [TxPath.enqueuePendingFrame, if_pos full, dropped, serializeRawToFrame_eq_none.mpr unserializable]
    rw [evicts] at leaves
    have same : rest = s.queue := leaves rfl
    have shorter := (dropOneTelemetry_eq_some dropped).2.2
    rw [same] at shorter
    omega
  · intro serializable refused
    by_cases full : TX_QUEUE_CAP ≤ s.queue.length
    · by_cases telemetry : ∃ e ∈ s.queue, e.telemetry = true
      · have pushed : (s.enqueuePendingFrame Ts cmd raw).2.isSome := by
          rw [enqueuePendingFrame_isSome_iff]
          refine ⟨fun crowded => ?_, serializable full telemetry⟩
          obtain ⟨e, member, flag⟩ := telemetry
          rw [crowded.2 e member] at flag
          cases flag
        rw [refused] at pushed
        cases pushed
      · have crowded : Crowded s.queue :=
          ⟨full, fun e member => Bool.eq_false_iff.mpr fun flag => telemetry ⟨e, member, flag⟩⟩
        rw [enqueuePendingFrame_crowded crowded]
    · rw [TxPath.enqueuePendingFrame, if_neg full] at refused ⊢
      cases made : serializeRawToFrame Ts s.serializer cmd raw with
      | none => rfl
      | some result =>
        rw [made] at refused
        cases refused

theorem enqueuePrebuiltFrame_leaves (s : TxPath) (frame : List UInt8) (priority : Bool) :
    LeavesQueue s (s.enqueuePrebuiltFrame frame priority) := by
  intro refused
  rcases s.enqueuePrebuiltFrame_cases frame priority with ⟨-, done⟩ | ⟨_, -, -, done⟩
  · rw [done]
  · rw [done] at refused
    cases refused

theorem enqueuePacket_leaves (s : TxPath) (packet : Packet Ts) (priority : Bool) :
    LeavesQueue s (s.enqueuePacket packet priority) := by
  intro refused
  rcases s.enqueuePacket_cases packet priority with ⟨-, done⟩ | ⟨-, done⟩
  · rw [done]
  · rw [done] at refused ⊢
    exact enqueuePrebuiltFrame_leaves { s with serializer := ⟨s.serializer.sequence + 1⟩ } _ priority refused

/-- A packet that is not enqueued leaves the queue alone, and the session anyway. -/
theorem transmit_leaves (s : ProtocolStack Ts) (packet : Packet Ts) (priority : Bool)
    (refused : Refused (s.transmit (s.tx.enqueuePacket packet priority) (.enqueued packet.content))) :
    (s.transmit (s.tx.enqueuePacket packet priority) (.enqueued packet.content)).1.tx.queue = s.tx.queue := by
  apply enqueuePacket_leaves s.tx packet priority
  cases pushed : (s.tx.enqueuePacket packet priority).2 with
  | none => rfl
  | some entry =>
    refine absurd ?_ (refused packet.content entry)
    rw [ProtocolStack.transmit, pushed]
    exact List.mem_singleton.mpr rfl

/-- What the call logs before it enqueues is no entry. -/
theorem Refused.tail {s : ProtocolStack Ts} {content : Frame} {ev : List StackEvent}
    (refused : Refused (s, .offered content :: ev)) {s' : ProtocolStack Ts} : Refused (s', ev) :=
  fun c entry member => refused c entry (List.mem_cons_of_mem _ member)

theorem broadcast_leaves (s : ProtocolStack Ts) (packet : Packet Ts) (refused : Refused (s.broadcast packet)) :
    (s.broadcast packet).1.tx.queue = s.tx.queue :=
  transmit_leaves s packet false refused.tail

theorem sendResponseAndCache_leaves (s : ProtocolStack Ts) (cmd : UInt16) (txId : TransactionId)
    (response : Packet Ts) (refused : Refused (s.sendResponseAndCache cmd txId response)) :
    (s.sendResponseAndCache cmd txId response).1.tx.queue = s.tx.queue ∧
      (s.sendResponseAndCache cmd txId response).1.session = s.session := by
  obtain ⟨log, sent⟩ := sendResponseAndCache_parts s cmd txId response
  have nothing : Refused (s.transmit (s.tx.enqueuePacket response true) (.enqueued response.content)) := by
    intro content entry member
    apply refused content entry
    rw [log]
    exact List.mem_cons_of_mem _ member
  rcases sent with same | ⟨entry, pushed, -⟩
  · rw [same]
    exact ⟨transmit_leaves s response true nothing, rfl⟩
  · refine absurd ?_ (nothing response.content entry)
    rw [pushed]
    exact List.mem_singleton.mpr rfl

/-- **What a refused call leaves alone.** Prebuilt frames, broadcasts and responses: the queue,
and the session with its response cache. Raw bytes: the queue, if and only if it has room, or
holds no telemetry, or the bytes are those of a packet that can be serialized. -/
theorem refusals_iff (s : ProtocolStack Ts) :
    (∀ cmd raw, LeavesQueue s.tx (s.tx.enqueuePendingFrame Ts cmd raw) ↔
      (TX_QUEUE_CAP ≤ s.tx.queue.length → (∃ e ∈ s.tx.queue, e.telemetry = true) → Serializable Ts cmd raw)) ∧
    (∀ frame priority, LeavesQueue s.tx (s.tx.enqueuePrebuiltFrame frame priority)) ∧
    (∀ packet, Refused (s.broadcast packet) → (s.broadcast packet).1.tx.queue = s.tx.queue) ∧
    ∀ cmd txId response, Refused (s.sendResponseAndCache cmd txId response) →
      (s.sendResponseAndCache cmd txId response).1.tx.queue = s.tx.queue ∧
        (s.sendResponseAndCache cmd txId response).1.session = s.session :=
  ⟨enqueuePendingFrame_leaves_iff s.tx, enqueuePrebuiltFrame_leaves s.tx, broadcast_leaves s,
    sendResponseAndCache_leaves s⟩

/-- In a stack whose packets have at most 256 bytes, and frames that fit, a session entry that
is refused leaves the queue alone, in any run. -/
theorem entry_leaves (config : Config) (ops : List (StackOp Ts))
    (small : ∀ T ∈ Ts.types, T.size ≤ MAX_PACKET_SIZE ∧ T.frameSize ≤ MAX_FRAME_SIZE) {e : RetransmitEntry}
    (sent : .session (.handedOut e) ∈ (stack Ts).trace (.init Ts config) ops ∨
      .session (.retransmitted e) ∈ (stack Ts).trace (.init Ts config) ops) (s : TxPath) :
    LeavesQueue s (s.enqueuePendingFrame Ts e.requestCmd e.requestBytes) := by
  rw [enqueuePendingFrame_leaves_iff]
  intro _ _
  obtain ⟨args, txId, -, rfl⟩ := (stored_run config ops).sent e (sent.imp_right .inl)
  exact (entry_serializable_iff args txId).mpr (small args.request.traits args.request.mem)

end Refusals

/-- A list with a telemetry packet and a request of 300 bytes. -/
def statusAndBulk : PacketTypes where
  types := [ackPacket, Arm.gripperStatus, .reliable 0x6119 296]
  cmd_nodup := by decide
  ack_mem := by decide

/-- **A refused request costs a telemetry frame.** Sixteen status frames wait when the request is
handed out; one of them is dropped, and nothing comes in its place. -/
theorem refused_request_drops_status :
    let status : Packet statusAndBulk := ⟨Arm.gripperStatus, List.replicate 20 0, by decide, List.length_replicate⟩
    let request : Packet statusAndBulk := ⟨.reliable 0x6119 296, List.replicate 300 1, by decide, List.length_replicate⟩
    let args : SendArgs statusAndBulk := ⟨request, rfl, 0x611A, true, true, 200000, 3⟩
    let s := (stack statusAndBulk).exec (.init statusAndBulk {})
      (List.replicate 16 (.act (.broadcast status)) ++ [.act (.send 0 args)])
    let entry := (args.registration 1).entry
    let cycle := (stack statusAndBulk).step s (.sessionOutbound fun _ => 0)
    ¬ LeavesQueue s.tx (s.tx.enqueuePendingFrame statusAndBulk entry.requestCmd entry.requestBytes) ∧
      s.tx.queue.length = 16 ∧ cycle.2 = [.session (.handedOut entry)] ∧ cycle.1.tx.queue.length = 15 := by
  intro status request args s entry cycle
  have length : s.tx.queue.length = 16 := by decide +kernel
  have telemetry : ∃ e ∈ s.tx.queue, e.telemetry = true := by decide +kernel
  refine ⟨?_, length, ?_, ?_⟩
  · rw [enqueuePendingFrame_leaves_iff]
    intro serializable
    have small := (entry_serializable_iff args 1).mp (serializable (Nat.le_of_eq length.symm) telemetry)
    exact absurd small.1 (by decide)
  · decide +kernel
  · decide +kernel

end FloridUsb.Stack
