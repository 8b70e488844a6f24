import FloridUsb.EndToEnd.Agreement
import FloridUsb.Lib.StopAndWait
import FloridUsb.Stack.Codec
import FloridUsb.Stack.Turns

/-!
# An exchange over a line that loses

The application of a host sends requests at any time; the handlers of a device answer each run at
once. Host and device are whole stacks, joined by a line in each direction that loses any frames,
but neither repeats nor reorders them. The steps of both sides and of the line come in any order.
-/

namespace FloridUsb.EndToEnd
set_option autoImplicit false

open Lib Rpl Session Stack

/-- What the handlers answer. -/
abbrev Service (Ts : PacketTypes) := HandlerId → UInt16 → TransactionId → List UInt8 → Packet Ts

/-- Both stacks and the frames on the way. -/
structure Exchange (Ts : PacketTypes) where
  host : ProtocolStack Ts
  device : ProtocolStack Ts
  toDevice : List (List UInt8) := []
  toHost : List (List UInt8) := []

inductive ExchangeEvent where
  | host (e : StackEvent)
  | device (e : StackEvent)
  | lost (frame : List UInt8)
deriving DecidableEq

inductive ExchangeOp (Ts : PacketTypes) where
  | send (now : Time) (args : SendArgs Ts)
  /-- `handle_session_outbound` of the host. -/
  | outbound (clock : Nat → Time)
  /-- `handle_session_retries` of the host, whose error callbacks do nothing to it. -/
  | retries (now : Time) (clock : TransactionId → Time)
  | drainHost (sendFrame : Option Bool)
  | drainDevice (sendFrame : Option Bool)
  /-- The first frame on its way is read by the parser of the device. -/
  | hearDevice (now : Time)
  | hearHost (now : Time)
  | loseRequest (n : Nat)
  | loseResponse (n : Nat)

/-- The packet that the parser reads from a frame. -/
def heard (Ts : PacketTypes) (frame : List UInt8) : Option Frame := (readFrame Ts frame).filter (·.known Ts)

/-- What a handler does: it answers its run. -/
def StackEvent.answers {Ts : PacketTypes} (service : Service Ts) : StackEvent → Option (Act Ts)
  | .handler handler cmd txId data => some (.sendResponseAndCache cmd txId (service handler cmd txId data))
  | _ => none

namespace Exchange

variable {Ts : PacketTypes}

def init (Ts : PacketTypes) (hostConfig deviceConfig : Config) (handlers : DenseMap UInt16 (Option HandlerId)) :
    Exchange Ts where
  host := .init Ts hostConfig
  device := { ProtocolStack.init Ts deviceConfig with handlers := handlers }

variable (service : Service Ts) (x : Exchange Ts)

/-- A step of the host. The frames that `send_frame` takes go onto the line. -/
def hostStep (o : StackOp Ts) : Exchange Ts × List ExchangeEvent :=
  let r := (stack Ts).step x.host o
  ({ x with host := r.1, toDevice := x.toDevice ++ acceptedFrames r.2 }, r.2.map .host)

/-- A step of the device, and the answers of the handlers it invokes. -/
def deviceStep (o : StackOp Ts) : Exchange Ts × List ExchangeEvent :=
  let r := (stack Ts).step x.device o
  let answered := r.1.runActs (r.2.filterMap (StackEvent.answers service))
  ({ x with device := answered.1, toHost := x.toHost ++ acceptedFrames r.2 }, (r.2 ++ answered.2).map .device)

def step : ExchangeOp Ts → Exchange Ts × List ExchangeEvent
  | .send now args => x.hostStep (.act (.send now args))
  | .outbound clock => x.hostStep (.sessionOutbound clock)
  | .retries now clock => x.hostStep (.sessionRetries now clock fun _ => [])
  | .drainHost sendFrame => x.hostStep (.drainTx sendFrame)
  | .drainDevice sendFrame => x.deviceStep service (.drainTx sendFrame)
  | .hearDevice now =>
    match x.toDevice with
    | [] => (x, [])
    | frame :: rest =>
      match heard Ts frame with
      | none => ({ x with toDevice := rest }, [])
      | some f => deviceStep service { x with toDevice := rest } (.packet now f.cmd f.payload)
  | .hearHost now =>
    match x.toHost with
    | [] => (x, [])
    | frame :: rest =>
      match heard Ts frame with
      | none => ({ x with toHost := rest }, [])
      | some f => hostStep { x with toHost := rest } (.packet now f.cmd f.payload)
  | .loseRequest n =>
    match x.toDevice[n]? with
    | none => (x, [])
    | some frame => ({ x with toDevice := x.toDevice.eraseIdx n }, [.lost frame])
  | .loseResponse n =>
    match x.toHost[n]? with
    | none => (x, [])
    | some frame => ({ x with toHost := x.toHost.eraseIdx n }, [.lost frame])

/-- Nothing is on the way or about to be sent. -/
def Quiet : Prop := x.host.tx.queue = [] ∧ x.toDevice = [] ∧ x.device.tx.queue = [] ∧ x.toHost = []

end Exchange

/-- Host, line and device as a machine. -/
def exchange {Ts : PacketTypes} (service : Service Ts) : Machine (Exchange Ts) (ExchangeOp Ts) ExchangeEvent where
  step := Exchange.step service

/-! ### What is observed -/

/-- What applications and the line see of an exchange. -/
inductive Observed where
  | registered (r : Registration)
  | ran (run : Run)
  /-- A callback of the host, with the response it gets, if any. -/
  | callback (txId : TransactionId) (response : Option Frame)
  | lost
deriving DecidableEq

def ExchangeEvent.observed : ExchangeEvent → Option Observed
  | .host (.session (.registered r)) => some (.registered r)
  | .host (.session (.response txId cmd bytes)) => some (.callback txId (some ⟨cmd, bytes⟩))
  | .host (.session (.error txId _)) => some (.callback txId none)
  | .device (.handler _ cmd txId data) => some (.ran ⟨cmd, txId, data⟩)
  | .lost _ => some .lost
  | _ => none

def observe (log : List ExchangeEvent) : List Observed := log.filterMap ExchangeEvent.observed

section Answers

variable {Ts : PacketTypes} (service : Service Ts) (handlers : DenseMap UInt16 (Option HandlerId))

/-- The packet that the device answers a request with. -/
def answerTo (cmd : UInt16) (txId : TransactionId) (data : List UInt8) : Option (Packet Ts) :=
  match handlers.find? cmd with
  | some (some handler) => some (service handler cmd txId data)
  | _ => none

/-- The response to a request. -/
def replyTo (r : Registration) : Option Frame :=
  (answerTo service handlers r.requestCmd r.txId r.requestBytes).map Packet.content

/-- A request that is answered, with a response of the registered type that fits the cache; neither
callback is left out. -/
structure Answerable (args : SendArgs Ts) : Prop where
  odd : args.request.traits.cmd &&& 0x0001 = 0x0001
  low : args.request.traits.cmd < 0x6300
  short : args.request.traits.size ≤ MAX_PACKET_SIZE
  onResponse : args.onResponse = true
  onError : args.onError = true
  responseCmd : args.responseCmd ≠ ACK_CMD ∧ isRequestCmd args.responseCmd = false
  answered : ∀ txId, ∃ reply, answerTo service handlers args.request.traits.cmd txId
      (args.request.traits.setTxId args.request.bytes txId) = some reply ∧
    reply.traits.cmd = args.responseCmd ∧ reply.traits.getTxId reply.bytes = txId ∧
    reply.traits.frameSize ≤ MAX_PACKET_SIZE

/-- The application sends what is answered and has not used up the numbers, and timeouts are longer
than a round trip: the host polls only when both queues and the line are empty, or when nothing is due.
The polls of an exchange have error callbacks that do nothing. -/
def Orderly (x : Exchange Ts) : ExchangeOp Ts → Prop
  | .send _ args => Answerable service handlers args ∧ x.host.session.nextTxId ≠ 0
  | .retries now _ => x.Quiet ∨ ∀ d, x.host.nextWakeTime = some d → now < d
  | _ => True

end Answers

end FloridUsb.EndToEnd
