import FloridUsb.Rpl.Packet

/-!
# The packets of the arm

The `PacketTraits` specialisations of `ArmCommand.hpp` and `ArmStatus.hpp`. The structs
are packed, so a size is the sum of its members' sizes. `armPackets` lists them all;
`receiveSerial` and `testArm` are the lists two of the example programs use.
-/

namespace FloridUsb.Rpl.Arm
set_option autoImplicit false

open PacketTraits

/-! ### Telemetry, firmware to host -/

def gripperStatus : PacketTraits := unsolicited 0x6003 (4 * 4 + 1 + 3)
def armStatus : PacketTraits := unsolicited 0x6001 (1 + 3 + 4 + 8 + 3 * (6 * 4) + 3 * 4 + 20)
def motorFeedbackArray : PacketTraits := unsolicited 0x6002 (7 * (1 + 4 * 4))

/-! ### Requests and responses -/

def setMitLimitRequestPacket : PacketTraits := reliable 0x6103 (1 + 4 + 4)
def setMitLimitResponsePacket : PacketTraits := reliable 0x6104 1
def setMotorStateRequestPacket : PacketTraits := reliable 0x6105 (1 + 1)
def setMotorStateResponsePacket : PacketTraits := reliable 0x6106 1
def setZeroRequestPacket : PacketTraits := reliable 0x6107 1
def setZeroResponsePacket : PacketTraits := reliable 0x6108 1
def clearErrorRequestPacket : PacketTraits := reliable 0x6109 1
def clearErrorResponsePacket : PacketTraits := reliable 0x610A 1
def homeAllRequestPacket : PacketTraits := reliable 0x6201 1
def homeAllResponsePacket : PacketTraits := reliable 0x6202 1
def runCalibrationRequestPacket : PacketTraits := reliable 0x6203 1
def runCalibrationResponsePacket : PacketTraits := reliable 0x6204 1
def clearFaultsRequestPacket : PacketTraits := reliable 0x6205 1
def clearFaultsResponsePacket : PacketTraits := reliable 0x6206 1
def setSafetyRequestPacket : PacketTraits := reliable 0x6207 (4 + 4)
def setSafetyResponsePacket : PacketTraits := reliable 0x6208 1
def sdkClientConnectedRequestPacket : PacketTraits := reliable 0x6209 1
def sdkClientConnectedResponsePacket : PacketTraits := reliable 0x620A 1
def sdkClientDisconnectedRequestPacket : PacketTraits := reliable 0x620B 1
def sdkClientDisconnectedResponsePacket : PacketTraits := reliable 0x620C 1
def homeDoneRequestPacket : PacketTraits := reliable 0x620D 1
def homeDoneResponsePacket : PacketTraits := reliable 0x620E 1
def usbSessionStartRequestPacket : PacketTraits := reliable 0x620F 1
def usbSessionStartResponsePacket : PacketTraits := reliable 0x6210 1
def usbSessionStopRequestPacket : PacketTraits := reliable 0x6211 1
def usbSessionStopResponsePacket : PacketTraits := reliable 0x6212 1
def getMotorFeedbackRequestPacket : PacketTraits := reliable 0x6213 1
def getMotorFeedbackResponsePacket : PacketTraits := reliable 0x6214 (7 * (1 + 4 * 4))
def setMotorControlModeRequestPacket : PacketTraits := reliable 0x6215 (1 + 1)
def setMotorControlModeResponsePacket : PacketTraits := reliable 0x6216 1

/-! ### Fire-and-forget, host to firmware -/

def jointCommandPacket : PacketTraits := unsolicited 0x6301 (5 * (6 * 4) + 4 + 2 + 1)
def emergencyStopPacket : PacketTraits := unsolicited 0x6303 1
def gripperCommandPacket : PacketTraits := unsolicited 0x6305 (5 * 4 + 4 + 2 + 1)
def jointPosVelCommandPacket : PacketTraits := unsolicited 0x6306 (2 * (6 * 4) + 1 + 2)
def jointVelocityCommandPacket : PacketTraits := unsolicited 0x6307 (6 * 4 + 1 + 2)
def jointHybridCommandPacket : PacketTraits := unsolicited 0x6308 (3 * (6 * 4) + 1 + 2)

/-! ### Lists -/

/-- Every packet type of the library. -/
def armPackets : PacketTypes where
  types := [ackPacket, armStatus, motorFeedbackArray, gripperStatus, setMitLimitRequestPacket,
    setMitLimitResponsePacket, setMotorStateRequestPacket, setMotorStateResponsePacket,
    setZeroRequestPacket, setZeroResponsePacket, clearErrorRequestPacket, clearErrorResponsePacket,
    homeAllRequestPacket, homeAllResponsePacket, runCalibrationRequestPacket, runCalibrationResponsePacket,
    clearFaultsRequestPacket, clearFaultsResponsePacket, setSafetyRequestPacket, setSafetyResponsePacket,
    sdkClientConnectedRequestPacket, sdkClientConnectedResponsePacket, sdkClientDisconnectedRequestPacket,
    sdkClientDisconnectedResponsePacket, homeDoneRequestPacket, homeDoneResponsePacket,
    usbSessionStartRequestPacket, usbSessionStartResponsePacket, usbSessionStopRequestPacket,
    usbSessionStopResponsePacket, getMotorFeedbackRequestPacket, getMotorFeedbackResponsePacket,
    setMotorControlModeRequestPacket, setMotorControlModeResponsePacket, jointCommandPacket,
    emergencyStopPacket, gripperCommandPacket, jointPosVelCommandPacket, jointVelocityCommandPacket,
    jointHybridCommandPacket]
  cmd_nodup := by decide
  ack_mem := by decide

/-- `DeviceStack` of `receive_serial.cpp` and `HostStack` of `send_serial.cpp`. -/
def receiveSerial : PacketTypes where
  types := [ackPacket, setMitLimitRequestPacket, setMitLimitResponsePacket]
  cmd_nodup := by decide
  ack_mem := by decide

/-- `HostStack` of `test_arm.cpp`. -/
def testArm : PacketTypes where
  types := [ackPacket, setMitLimitRequestPacket, setMitLimitResponsePacket, setMotorStateRequestPacket,
    setMotorStateResponsePacket, jointCommandPacket, emergencyStopPacket, armStatus, motorFeedbackArray]
  cmd_nodup := by decide
  ack_mem := by decide

/-- Every packet of the library fits a 256-byte frame, and a `tx_id` comes first where there is one. -/
theorem armPackets_layout :
    ∀ T ∈ armPackets.types, T.frameSize ≤ 256 ∧ (T.txIdOffset = none ∨ T.txIdOffset = some 0) := by
  decide

end FloridUsb.Rpl.Arm
