import FloridUsb.Stack.Protocol

/-!
# Unsolicited packets

Telemetry and fire-and-forget packets carry no `tx_id` and go straight to their handler,
unless `handle_packet_internal` takes them for a response: a telemetry command that is even
fails `is_request_cmd`, and `handle_response_packet` drops what has no `tx_id`.
-/

namespace FloridUsb.Stack
set_option autoImplicit false

open Lib Rpl Session

/-- The region of telemetry, `0x6000-0x60FF`. -/
def InTelemetryRegion (cmd : UInt16) : Prop := 0x6000 ≤ cmd ∧ cmd ≤ 0x60FF

/-- The region of fire-and-forget commands, `0x6300-0x63FF`. -/
def InFireAndForgetRegion (cmd : UInt16) : Prop := 0x6300 ≤ cmd ∧ cmd ≤ 0x63FF

/-- The packet goes to the handler, once and as it is, and leaves the stack as it was. -/
def Delivers {Ts : PacketTypes} (s : ProtocolStack Ts) (now : Time) (cmd : UInt16) (data : List UInt8)
    (handler : HandlerId) : Prop :=
  ∃ txId, s.handlePacketInternal now cmd data = (s, [.handler handler cmd txId data])

namespace ProtocolStack

variable {Ts : PacketTypes} {s : ProtocolStack Ts} {cmd : UInt16} {data : List UInt8}

theorem invoke_some {handler : HandlerId} (registered : s.handlers.find? cmd = some (some handler))
    (txId : TransactionId) :
    s.invoke cmd txId data = [.handler handler cmd txId data] := by
  rw [invoke, registered]

/-- A request without a `tx_id` in one of the two regions goes to its handler. -/
theorem handleRequestPacket_noTxId (none : extractTxIdFromRaw Ts cmd data = 0)
    (region : InTelemetryRegion cmd ∨ InFireAndForgetRegion cmd) :
    s.handleRequestPacket cmd data = (s, s.invoke cmd 0 data) := by
  unfold handleRequestPacket
  dsimp only
  rw [none]
  rcases region with ⟨lower, upper⟩ | ⟨lower, -⟩
  · have below : cmd < 0x6300 := UInt16.lt_of_le_of_lt upper (by decide)
    have telemetry : 0x6000 ≤ cmd ∧ cmd < 0x6100 := ⟨lower, UInt16.lt_of_le_of_lt upper (by decide)⟩
    rw [if_neg (not_not.mpr below), if_pos rfl, if_pos telemetry]
  · rw [if_pos (UInt16.not_lt.mpr lower)]

theorem handleResponsePacket_noTxId (none : extractTxIdFromRaw Ts cmd data = 0) :
    s.handleResponsePacket cmd data = (s, []) := by
  unfold handleResponsePacket
  dsimp only
  rw [none]
  exact if_pos rfl

end ProtocolStack

/-- Outside the ACK command, an unsolicited packet is a request if and only if its command is
odd or fire-and-forget. -/
theorem isRequestCmd_unsolicited {cmd : UInt16} (region : InTelemetryRegion cmd ∨ InFireAndForgetRegion cmd) :
    cmd ≠ ACK_CMD ∧ (isRequestCmd cmd = true ↔ cmd &&& 1 = 1 ∨ InFireAndForgetRegion cmd) := by
  have below : cmd < 0x6400 := by
    rcases region with ⟨-, upper⟩ | ⟨-, upper⟩
    · exact UInt16.lt_of_le_of_lt upper (by decide)
    · exact UInt16.lt_of_le_of_lt upper (by decide)
  constructor
  · rintro rfl
    exact absurd below (by decide)
  · rw [isRequestCmd, decide_eq_true_eq]
    apply or_congr_right
    constructor
    · rintro ⟨lower, upper⟩
      refine ⟨lower, ?_⟩
      rw [UInt16.le_iff_toNat_le]
      have := UInt16.lt_iff_toNat_lt.mp upper
      have value : (0x6400 : UInt16).toNat = 0x63FF + 1 := rfl
      have bound : (0x63FF : UInt16).toNat = 0x63FF := rfl
      omega
    · rintro ⟨lower, -⟩
      exact ⟨lower, below⟩

/-- **Which unsolicited packets are delivered.** In every reachable state, a packet of a listed
type without `tx_id` in the telemetry or the fire-and-forget region goes to its handler, and
changes nothing else, if and only if its command is odd or fire-and-forget. -/
theorem delivers_iff (Ts : PacketTypes) (config : Config) (ops : List (StackOp Ts)) {T : PacketTraits}
    (member : T ∈ Ts.types) (noTxId : T.txIdOffset = none)
    (region : InTelemetryRegion T.cmd ∨ InFireAndForgetRegion T.cmd) (now : Time) {data : List UInt8}
    (size : data.length = T.size) {handler : HandlerId}
    (registered : ((stack Ts).exec (.init Ts config) ops).handlers.find? T.cmd = some (some handler)) :
    Delivers ((stack Ts).exec (.init Ts config) ops) now T.cmd data handler ↔
      T.cmd &&& 1 = 1 ∨ InFireAndForgetRegion T.cmd := by
  generalize (stack Ts).exec (.init Ts config) ops = s at registered ⊢
  have none : extractTxIdFromRaw Ts T.cmd data = 0 := by
    rw [extractTxIdFromRaw_mem member size, getTxId_of_none noTxId]
  obtain ⟨notAck, request⟩ := isRequestCmd_unsolicited region
  rw [← request]
  constructor
  · rintro ⟨txId, delivered⟩
    by_contra response
    rw [ProtocolStack.handlePacketInternal, if_neg notAck, if_neg response,
      ProtocolStack.handleResponsePacket_noTxId none] at delivered
    cases delivered
  · intro isRequest
    refine ⟨0, ?_⟩
    rw [ProtocolStack.handlePacketInternal, if_neg notAck, if_pos isRequest,
      ProtocolStack.handleRequestPacket_noTxId none region, ProtocolStack.invoke_some registered]

/-- The status of the arm reaches the handler that `test_arm.cpp` registers. -/
theorem delivers_armStatus :
    let s := (stack Arm.testArm).exec (.init Arm.testArm {}) [.act (.registerHandler 0x6001 (some 0))]
    Delivers s 0 0x6001 (List.replicate 120 7) 0 := by
  intro s
  have size : (List.replicate 120 (7 : UInt8)).length = Arm.armStatus.size := List.length_replicate
  have registered : s.handlers.find? Arm.armStatus.cmd = some (some 0) := rfl
  exact (delivers_iff Arm.testArm {} _ (by decide) rfl (.inl ⟨by decide, by decide⟩) 0 size registered).mpr (.inl rfl)

/-- **Motor feedback is dropped.** The handler that `test_arm.cpp` registers for it is not
invoked. -/
theorem motorFeedback_dropped :
    let s := (stack Arm.testArm).exec (.init Arm.testArm {}) [.act (.registerHandler 0x6002 (some 0))]
    s.handlers.find? 0x6002 = some (some 0) ∧ Arm.motorFeedbackArray ∈ Arm.testArm.types ∧
      Arm.motorFeedbackArray.cmd = 0x6002 ∧ Arm.motorFeedbackArray.size = 119 ∧
      s.handlePacketInternal 0 0x6002 (List.replicate 119 7) = (s, []) ∧
      ¬ Delivers s 0 0x6002 (List.replicate 119 7) 0 := by
  intro s
  have dropped : s.handlePacketInternal 0 0x6002 (List.replicate 119 7) = (s, []) := by
    have none : extractTxIdFromRaw Arm.testArm 0x6002 (List.replicate 119 7) = 0 :=
      extractTxIdFromRaw_mem (T := Arm.motorFeedbackArray) (by decide) List.length_replicate
    rw [ProtocolStack.handlePacketInternal, if_neg (by decide), if_neg (by decide),
      ProtocolStack.handleResponsePacket_noTxId none]
  refine ⟨rfl, by decide, rfl, rfl, dropped, ?_⟩
  rintro ⟨txId, delivered⟩
  rw [dropped] at delivered
  cases delivered

end FloridUsb.Stack
