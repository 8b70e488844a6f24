import FloridUsb.Lib.Machine
import FloridUsb.Rpl.ArmPackets
import FloridUsb.Rpl.Serializer

/-!
# The transmit queue

The transmit half of `ProtocolStack` (`ProtocolStack.hpp`): the serializer, the queue of 16
frames and its two ways in. Requests and retransmissions come as the raw bytes of a packet
(`enqueue_pending_frame`); broadcasts, ACKs, responses and replayed responses come as frames
(`enqueue_prebuilt_frame`). The frames in front leave by `drain_tx`.

An entry that is not telemetry is lost unsent when a telemetry frame is enqueued as a frame on
a full queue without telemetry. `spares_iff` says that no other step loses one, but for ACKs
and responses, which displace the newest entry of such a queue by design.
-/

namespace FloridUsb.Stack
set_option autoImplicit false

open Lib Rpl

def MAX_FRAME_SIZE : Nat := 512
def TX_QUEUE_CAP : Nat := 16

/-- `TxEntry`, with the first `len` bytes of its array. -/
structure TxEntry where
  frame : List UInt8
  telemetry : Bool
deriving DecidableEq

/-- `m_serializer` and `m_tx_queue`. -/
structure TxPath where
  serializer : Serializer := {}
  queue : List TxEntry := []

def isTelemetryCmd (cmd : UInt16) : Bool := decide (0x6000 ≤ cmd ∧ cmd ≤ 0x60FF)

def isTelemetryFrame (frame : List UInt8) : Bool :=
  if frame.length < 7 then false else isTelemetryCmd (le16 frame 5)

/-- `drop_one_telemetry`: the queue without its first telemetry entry, if there is one. -/
def dropOneTelemetry : List TxEntry → Option (List TxEntry)
  | [] => none
  | e :: queue => if e.telemetry then some queue else (dropOneTelemetry queue).map (e :: ·)

section Definitions

variable {Ts : PacketTypes}

def serializePacketToFrame (serializer : Serializer) (packet : Packet Ts) : Option (List UInt8 × Serializer) :=
  serializer.serialize MAX_FRAME_SIZE packet

/-- `try_serialize_raw<T>`. -/
def trySerializeRaw (serializer : Serializer) (cmd : UInt16) (raw : List UInt8) (T : {T // T ∈ Ts.types}) :
    Option (List UInt8 × Serializer) :=
  if cmd ≠ T.val.cmd then none
  else if size : raw.length = T.val.size then serializePacketToFrame serializer ⟨T.val, raw, T.property, size⟩
  else none

variable (Ts) in
def serializeRawToFrame (serializer : Serializer) (cmd : UInt16) (raw : List UInt8) :
    Option (List UInt8 × Serializer) :=
  Ts.types.attach.findSome? (trySerializeRaw serializer cmd raw)

namespace TxPath

variable (s : TxPath)

/-- `push_back`: the entry that an enqueue returning true has put into the queue. -/
def push (entry : TxEntry) : TxPath × Option TxEntry := ({ s with queue := s.queue ++ [entry] }, some entry)

variable (Ts) in
def enqueuePendingFrame (cmd : UInt16) (raw : List UInt8) : TxPath × Option TxEntry :=
  match if s.queue.length ≥ TX_QUEUE_CAP then dropOneTelemetry s.queue else some s.queue with
  | none => (s, none)
  | some queue =>
    match serializeRawToFrame Ts s.serializer cmd raw with
    | none => ({ s with queue := queue }, none)
    | some (frame, serializer) => push ⟨serializer, queue⟩ ⟨frame, isTelemetryCmd cmd⟩

def enqueuePrebuiltFrame (frame : List UInt8) (priority : Bool) : TxPath × Option TxEntry :=
  if frame.length > MAX_FRAME_SIZE then (s, none)
  else
    let telemetry := isTelemetryFrame frame
    if s.queue.length ≥ TX_QUEUE_CAP then
      if priority ∨ telemetry then
        push { s with queue := (dropOneTelemetry s.queue).getD s.queue.dropLast } ⟨frame, telemetry⟩
      else (s, none)
    else s.push ⟨frame, telemetry⟩

/-- A packet is serialized and its frame enqueued: `broadcast` without priority, an ACK and a
response with priority. -/
def enqueuePacket (packet : Packet Ts) (priority : Bool) : TxPath × Option TxEntry :=
  match serializePacketToFrame s.serializer packet with
  | none => (s, none)
  | some (frame, serializer) => enqueuePrebuiltFrame { s with serializer := serializer } frame priority

/-- `drain_tx`, given what `send_frame` returns, if it is set: the entry that is accepted. -/
def drainTx (sendFrame : Option Bool) : TxPath × Option TxEntry :=
  match sendFrame, s.queue with
  | some true, entry :: queue => ({ s with queue := queue }, some entry)
  | _, _ => (s, none)

end TxPath

end Definitions

inductive TxOp (Ts : PacketTypes) where
  /-- A request or a retransmission. -/
  | pending (cmd : UInt16) (raw : List UInt8)
  | packet (packet : Packet Ts) (priority : Bool)
  /-- A replay of a cached response. -/
  | replay (frame : List UInt8)
  | drain (sendFrame : Option Bool)

inductive TxEvent where
  | enqueued (entry : TxEntry)
  /-- `send_frame` returned true. -/
  | accepted (entry : TxEntry)
deriving DecidableEq

def TxPath.step {Ts : PacketTypes} (s : TxPath) : TxOp Ts → TxPath × List TxEvent
  | .pending cmd raw =>
    ((s.enqueuePendingFrame Ts cmd raw).1, ((s.enqueuePendingFrame Ts cmd raw).2.map .enqueued).toList)
  | .packet packet priority =>
    ((s.enqueuePacket packet priority).1, ((s.enqueuePacket packet priority).2.map .enqueued).toList)
  | .replay frame =>
    ((s.enqueuePrebuiltFrame frame true).1, ((s.enqueuePrebuiltFrame frame true).2.map .enqueued).toList)
  | .drain sendFrame => ((s.drainTx sendFrame).1, ((s.drainTx sendFrame).2.map .accepted).toList)

/-- The transmit half as a machine. -/
def transmitter (Ts : PacketTypes) : Machine TxPath (TxOp Ts) TxEvent where
  step := TxPath.step

/-! ### Frames -/

theorem isTelemetryFrame_frameBytes (seq : UInt8) (cmd : UInt16) (payload : List UInt8) :
    isTelemetryFrame (frameBytes seq cmd payload) = isTelemetryCmd cmd := by
  rw [isTelemetryFrame, if_neg (by rw [length_frameBytes]; omega), le16_frameBytes_cmd]

section Serialize

variable {Ts : PacketTypes} {serializer serializer' : Serializer} {frame : List UInt8}

/-- A raw packet is serialized as a packet of the type of its command. -/
theorem serializeRawToFrame_eq_some {cmd : UInt16} {raw : List UInt8}
    (done : serializeRawToFrame Ts serializer cmd raw = some (frame, serializer')) :
    ∃ packet : Packet Ts, packet.traits.cmd = cmd ∧ packet.bytes = raw ∧
      serializePacketToFrame serializer packet = some (frame, serializer') := by
  obtain ⟨T, -, tried⟩ := List.exists_of_findSome?_eq_some done
  rw [trySerializeRaw] at tried
  split at tried
  · cases tried
  rename_i same
  split at tried
  · rename_i size
    exact ⟨⟨T.val, raw, T.property, size⟩, (not_not.mp same).symm, rfl, tried⟩
  · cases tried

/-- **Raw and typed serialization agree**: the bytes of a packet give the frame of the packet. -/
theorem serializeRawToFrame_packet (serializer : Serializer) (packet : Packet Ts) :
    serializeRawToFrame Ts serializer packet.traits.cmd packet.bytes = serializePacketToFrame serializer packet := by
  have here : trySerializeRaw serializer packet.traits.cmd packet.bytes ⟨packet.traits, packet.mem⟩ =
      serializePacketToFrame serializer packet := by
    rw [trySerializeRaw, if_neg (by simp), dif_pos packet.length_bytes]
  cases raw : serializeRawToFrame Ts serializer packet.traits.cmd packet.bytes with
  | none =>
    have nowhere := List.findSome?_eq_none_iff.mp raw ⟨packet.traits, packet.mem⟩ (List.mem_attach _ _)
    rw [← here, nowhere]
  | some result =>
    obtain ⟨other, cmd, bytes, done⟩ := serializeRawToFrame_eq_some raw
    have traits : other.traits = packet.traits := by
      apply Option.some.inj
      rw [← PacketTypes.find_mem other.mem, ← PacketTypes.find_mem packet.mem, cmd]
    obtain ⟨T, b, m, l⟩ := other
    obtain ⟨T', b', m', l'⟩ := packet
    cases traits
    cases bytes
    exact done.symm

theorem serializePacketToFrame_eq_some {packet : Packet Ts}
    (done : serializePacketToFrame serializer packet = some (frame, serializer')) :
    packet.traits.frameSize ≤ MAX_FRAME_SIZE ∧
      frame = frameBytes serializer.sequence packet.traits.cmd packet.bytes ∧
      serializer' = ⟨serializer.sequence + 1⟩ := Serializer.serialize_eq_some done

theorem serializePacketToFrame_eq_none {packet : Packet Ts} (failed : serializePacketToFrame serializer packet = none) :
    MAX_FRAME_SIZE < packet.traits.frameSize := by
  simp only [serializePacketToFrame, Serializer.serialize] at failed
  split at failed
  · assumption
  · cases failed

end Serialize

/-! ### The queue -/

/-- The entries that are not telemetry. -/
def reliable (queue : List TxEntry) : List TxEntry := queue.filter fun e => !e.telemetry

/-- The queue has no room left, and holds no telemetry that could make room. -/
def Crowded (queue : List TxEntry) : Prop := TX_QUEUE_CAP ≤ queue.length ∧ ∀ e ∈ queue, e.telemetry = false

@[simp] theorem reliable_append (a b : List TxEntry) :
    reliable (a ++ b) = reliable a ++ reliable b := List.filter_append ..

theorem reliable_of_noTelemetry {queue : List TxEntry} (none : ∀ e ∈ queue, e.telemetry = false) :
    reliable queue = queue := by
  rw [reliable, List.filter_eq_self]
  intro e member
  rw [none e member]
  rfl

theorem dropOneTelemetry_eq_none {queue : List TxEntry} :
    dropOneTelemetry queue = none ↔ ∀ e ∈ queue, e.telemetry = false := by
  induction queue with
  | nil => simp [dropOneTelemetry]
  | cons e queue ih =>
    cases h : e.telemetry with
    | true => simp [dropOneTelemetry, h]
    | false => simp [dropOneTelemetry, h, ih]

/-- A telemetry entry is dropped, and everything else stays in its order. -/
theorem dropOneTelemetry_eq_some {queue rest : List TxEntry} (dropped : dropOneTelemetry queue = some rest) :
    reliable rest = reliable queue ∧ rest.Sublist queue ∧ rest.length + 1 = queue.length := by
  induction queue generalizing rest with
  | nil => cases dropped
  | cons e queue ih =>
    cases h : e.telemetry with
    | true =>
      simp only [dropOneTelemetry, h, if_true, Option.some.injEq] at dropped
      subst dropped
      exact ⟨by simp [reliable, h], List.sublist_cons_self _ _, rfl⟩
    | false =>
      simp only [dropOneTelemetry, h, Bool.false_eq_true, if_false, Option.map_eq_some_iff] at dropped
      obtain ⟨tail, dropped, rfl⟩ := dropped
      obtain ⟨same, sub, length⟩ := ih dropped
      refine ⟨?_, sub.cons_cons e, by simp [length]⟩
      simp only [reliable, List.filter_cons, h] at same ⊢
      rw [same]

namespace TxPath

variable {s : TxPath} {Ts : PacketTypes}

/-- How an enqueue changes a queue: not at all but for a telemetry entry dropped, or with the
new entry behind what has room for it. -/
theorem enqueuePendingFrame_cases (Ts : PacketTypes) (s : TxPath) (cmd : UInt16) (raw : List UInt8) :
    (∃ queue, (queue = s.queue ∨ dropOneTelemetry s.queue = some queue) ∧
      s.enqueuePendingFrame Ts cmd raw = ({ s with queue := queue }, none)) ∨
    ∃ queue frame serializer, (queue = s.queue ∧ s.queue.length < TX_QUEUE_CAP ∨
      dropOneTelemetry s.queue = some queue) ∧
      serializeRawToFrame Ts s.serializer cmd raw = some (frame, serializer) ∧
      s.enqueuePendingFrame Ts cmd raw =
        (⟨serializer, queue ++ [⟨frame, isTelemetryCmd cmd⟩]⟩, some ⟨frame, isTelemetryCmd cmd⟩) := by
  unfold enqueuePendingFrame
  by_cases full : s.queue.length ≥ TX_QUEUE_CAP
  · rw [if_pos full]
    cases dropped : dropOneTelemetry s.queue with
    | none => exact .inl ⟨s.queue, .inl rfl, rfl⟩
    | some queue =>
      cases raw : serializeRawToFrame Ts s.serializer cmd raw with
      | none => exact .inl ⟨queue, .inr rfl, rfl⟩
      | some result => exact .inr ⟨queue, result.1, result.2, .inr rfl, rfl, rfl⟩
  · rw [if_neg full]
    cases raw : serializeRawToFrame Ts s.serializer cmd raw with
    | none => exact .inl ⟨s.queue, .inl rfl, rfl⟩
    | some result => exact .inr ⟨s.queue, result.1, result.2, .inl ⟨rfl, by omega⟩, rfl, rfl⟩

theorem enqueuePrebuiltFrame_cases (s : TxPath) (frame : List UInt8) (priority : Bool) :
    ((MAX_FRAME_SIZE < frame.length ∨ TX_QUEUE_CAP ≤ s.queue.length ∧ priority = false ∧
      isTelemetryFrame frame = false) ∧
      s.enqueuePrebuiltFrame frame priority = (s, none)) ∨
    ∃ queue, (queue = s.queue ∧ s.queue.length < TX_QUEUE_CAP ∨ dropOneTelemetry s.queue = some queue ∨
        queue = s.queue.dropLast ∧ Crowded s.queue ∧ (priority = true ∨ isTelemetryFrame frame = true)) ∧
      frame.length ≤ MAX_FRAME_SIZE ∧
      s.enqueuePrebuiltFrame frame priority =
        ({ s with queue := queue ++ [⟨frame, isTelemetryFrame frame⟩] }, some ⟨frame, isTelemetryFrame frame⟩) := by
  unfold enqueuePrebuiltFrame
  by_cases long : frame.length > MAX_FRAME_SIZE
  · exact .inl ⟨.inl long, if_pos long⟩
  rw [if_neg long]
  have short : frame.length ≤ MAX_FRAME_SIZE := Nat.le_of_not_lt long
  dsimp only
  by_cases full : s.queue.length ≥ TX_QUEUE_CAP
  swap
  · rw [if_neg full]
    exact .inr ⟨s.queue, .inl ⟨rfl, by omega⟩, short, rfl⟩
  rw [if_pos full]
  by_cases entitled : priority = true ∨ isTelemetryFrame frame = true
  · right
    rw [if_pos entitled]
    cases dropped : dropOneTelemetry s.queue with
    | none =>
      have crowded : Crowded s.queue := ⟨full, dropOneTelemetry_eq_none.mp dropped⟩
      exact ⟨s.queue.dropLast, .inr (.inr ⟨rfl, crowded, entitled⟩), short, rfl⟩
    | some queue => exact ⟨queue, .inr (.inl rfl), short, rfl⟩
  · left
    rw [if_neg entitled]
    rw [not_or] at entitled
    exact ⟨.inr ⟨full, by simpa using entitled.1, by simpa using entitled.2⟩, rfl⟩

/-- A telemetry frame takes the place of the newest entry of a crowded queue. -/
theorem enqueuePrebuiltFrame_crowded {frame : List UInt8} {priority : Bool} (crowded : Crowded s.queue)
    (short : frame.length ≤ MAX_FRAME_SIZE) (telemetry : isTelemetryFrame frame = true) :
    (s.enqueuePrebuiltFrame frame priority).1.queue = s.queue.dropLast ++ [⟨frame, true⟩] := by
  rcases s.enqueuePrebuiltFrame_cases frame priority with ⟨refused, -⟩ | ⟨queue, place, -, done⟩
  · rcases refused with long | ⟨-, -, other⟩
    · omega
    · rw [telemetry] at other
      cases other
  · rw [done, telemetry]
    rcases place with ⟨-, room⟩ | dropped | ⟨rfl, -⟩
    · have := crowded.1
      omega
    · rw [dropOneTelemetry_eq_none.mpr crowded.2] at dropped
      cases dropped
    · rfl

theorem enqueuePacket_cases (s : TxPath) (packet : Packet Ts) (priority : Bool) :
    (MAX_FRAME_SIZE < packet.traits.frameSize ∧ s.enqueuePacket packet priority = (s, none)) ∨
    (packet.traits.frameSize ≤ MAX_FRAME_SIZE ∧ s.enqueuePacket packet priority =
      enqueuePrebuiltFrame { s with serializer := ⟨s.serializer.sequence + 1⟩ }
        (frameBytes s.serializer.sequence packet.traits.cmd packet.bytes) priority) := by
  unfold enqueuePacket
  cases done : serializePacketToFrame s.serializer packet with
  | none => exact .inl ⟨serializePacketToFrame_eq_none done, rfl⟩
  | some result =>
    obtain ⟨frame, serializer⟩ := result
    obtain ⟨fits, rfl, rfl⟩ := serializePacketToFrame_eq_some done
    exact .inr ⟨fits, rfl⟩

end TxPath

theorem length_frameBytes_packet {Ts : PacketTypes} (seq : UInt8) (packet : Packet Ts) :
    (frameBytes seq packet.traits.cmd packet.bytes).length = packet.traits.frameSize := by
  rw [length_frameBytes, packet.length_bytes]
  simp only [PacketTraits.frameSize, DefaultProtocol.headerSize, DefaultProtocol.tailSize]
  omega

/-! ### Entries -/

namespace TxPath

variable {s : TxPath} {Ts : PacketTypes} {e : TxEntry}

/-- Entries stay in their order, and the one enqueued comes behind them. -/
def Enqueues (queue : List TxEntry) (r : TxPath × Option TxEntry) : Prop :=
  ∃ kept, kept.Sublist queue ∧ r.1.queue = kept ++ r.2.toList

theorem Enqueues.mem {queue : List TxEntry} {r : TxPath × Option TxEntry} (enqueues : Enqueues queue r)
    (member : e ∈ r.1.queue) : e ∈ queue ∨ r.2 = some e := by
  obtain ⟨kept, old, split⟩ := enqueues
  rw [split, List.mem_append] at member
  exact member.imp (old.subset ·) Option.mem_toList.mp

/-- What makes room leaves the others in their order. -/
theorem kept_sublist {queue kept : List TxEntry}
    (place : kept = queue ∨ dropOneTelemetry queue = some kept ∨ kept = queue.dropLast) : kept.Sublist queue := by
  rcases place with rfl | dropped | rfl
  · exact List.Sublist.refl _
  · exact (dropOneTelemetry_eq_some dropped).2.1
  · exact List.dropLast_sublist _

theorem enqueuePendingFrame_enqueues (Ts : PacketTypes) (s : TxPath) (cmd : UInt16) (raw : List UInt8) :
    Enqueues s.queue (s.enqueuePendingFrame Ts cmd raw) := by
  rcases s.enqueuePendingFrame_cases Ts cmd raw with
    ⟨queue, place, done⟩ | ⟨queue, frame, serializer, place, -, done⟩ <;> rw [done]
  · exact ⟨queue, kept_sublist (place.imp_right .inl), (List.append_nil _).symm⟩
  · exact ⟨queue, kept_sublist ((place.imp_left And.left).imp_right .inl), rfl⟩

theorem enqueuePrebuiltFrame_enqueues (s : TxPath) (frame : List UInt8) (priority : Bool) :
    Enqueues s.queue (s.enqueuePrebuiltFrame frame priority) := by
  rcases s.enqueuePrebuiltFrame_cases frame priority with ⟨-, done⟩ | ⟨queue, place, -, done⟩ <;> rw [done]
  · exact ⟨s.queue, List.Sublist.refl _, (List.append_nil _).symm⟩
  · exact ⟨queue, kept_sublist ((place.imp_left And.left).imp_right (Or.imp_right And.left)), rfl⟩

theorem enqueuePacket_enqueues (s : TxPath) (packet : Packet Ts) (priority : Bool) :
    Enqueues s.queue (s.enqueuePacket packet priority) := by
  rcases s.enqueuePacket_cases packet priority with ⟨-, done⟩ | ⟨-, done⟩ <;> rw [done]
  · exact ⟨s.queue, List.Sublist.refl _, (List.append_nil _).symm⟩
  · exact enqueuePrebuiltFrame_enqueues { s with serializer := ⟨s.serializer.sequence + 1⟩ } _ _

/-- A pending request is enqueued as the frame of the packet with its bytes. -/
theorem enqueuePendingFrame_frame {cmd : UInt16} {raw : List UInt8}
    (pushed : (s.enqueuePendingFrame Ts cmd raw).2 = some e) :
    ∃ packet : Packet Ts, packet.traits.cmd = cmd ∧ packet.bytes = raw ∧ packet.traits.frameSize ≤ MAX_FRAME_SIZE ∧
      e.frame = frameBytes s.serializer.sequence packet.traits.cmd packet.bytes := by
  rcases s.enqueuePendingFrame_cases Ts cmd raw with ⟨_, -, done⟩ | ⟨_, frame, _, -, serialized, done⟩ <;>
    rw [done] at pushed <;> cases pushed
  obtain ⟨packet, same, bytes, serialized⟩ := serializeRawToFrame_eq_some serialized
  obtain ⟨fits, made, -⟩ := serializePacketToFrame_eq_some serialized
  exact ⟨packet, same, bytes, fits, made⟩

theorem enqueuePrebuiltFrame_frame {frame : List UInt8} {priority : Bool}
    (pushed : (s.enqueuePrebuiltFrame frame priority).2 = some e) : e.frame = frame := by
  rcases s.enqueuePrebuiltFrame_cases frame priority with ⟨-, done⟩ | ⟨_, -, -, done⟩ <;>
    rw [done] at pushed <;> cases pushed
  rfl

theorem enqueuePacket_frame {packet : Packet Ts} {priority : Bool}
    (pushed : (s.enqueuePacket packet priority).2 = some e) :
    packet.traits.frameSize ≤ MAX_FRAME_SIZE ∧
      e.frame = frameBytes s.serializer.sequence packet.traits.cmd packet.bytes := by
  rcases s.enqueuePacket_cases packet priority with ⟨-, done⟩ | ⟨fits, done⟩ <;> rw [done] at pushed
  · cases pushed
  · exact ⟨fits, enqueuePrebuiltFrame_frame pushed⟩

/-- `drain_tx` takes what it takes from the front. -/
theorem drainTx_queue (s : TxPath) (sendFrame : Option Bool) :
    (s.drainTx sendFrame).2.toList ++ (s.drainTx sendFrame).1.queue = s.queue := by
  unfold drainTx
  split
  · rename_i entry queue front
    exact front.symm
  · rfl

end TxPath

/-! ### What a step costs -/

namespace TxOp

variable {Ts : PacketTypes}

def priority : TxOp Ts → Bool
  | .packet _ priority => priority
  | .replay _ => true
  | _ => false

/-- A telemetry frame is enqueued as a frame. -/
def TelemetryFrame : TxOp Ts → Prop
  | .packet p _ => isTelemetryCmd p.traits.cmd = true ∧ p.traits.frameSize ≤ MAX_FRAME_SIZE
  | .replay frame => isTelemetryFrame frame = true ∧ frame.length ≤ MAX_FRAME_SIZE
  | _ => False

end TxOp

section Cost

variable {Ts : PacketTypes}

/-- How a step changes the queue: at most a telemetry entry goes, or the front is accepted,
or a new entry comes behind what has room for it. -/
theorem TxPath.step_queue (s : TxPath) (o : TxOp Ts) :
    (s.step o).1.queue = s.queue ∨ dropOneTelemetry s.queue = some (s.step o).1.queue ∨
      (∃ e, o = .drain (some true) ∧ s.queue = e :: (s.step o).1.queue) ∨
      ∃ kept e, (s.step o).1.queue = kept ++ [e] ∧
        (kept = s.queue ∧ s.queue.length < TX_QUEUE_CAP ∨ dropOneTelemetry s.queue = some kept ∨
          kept = s.queue.dropLast ∧ Crowded s.queue ∧ (o.priority = true ∨ o.TelemetryFrame) ∧
            (e.telemetry = true → o.TelemetryFrame)) := by
  cases o with
  | pending cmd raw =>
    show (s.enqueuePendingFrame Ts cmd raw).1.queue = _ ∨ _ = some (s.enqueuePendingFrame Ts cmd raw).1.queue ∨ _ ∨
      ∃ kept e, (s.enqueuePendingFrame Ts cmd raw).1.queue = _ ∧ _
    rcases s.enqueuePendingFrame_cases Ts cmd raw with ⟨queue, place, done⟩ |
      ⟨queue, frame, serializer, place, -, done⟩ <;> rw [done]
    · rcases place with same | dropped
      · exact .inl same
      · exact .inr (.inl dropped)
    · refine .inr (.inr (.inr ⟨queue, _, rfl, ?_⟩))
      exact place.imp_right .inl
  | packet packet priority =>
    show (s.enqueuePacket packet priority).1.queue = _ ∨ _ = some (s.enqueuePacket packet priority).1.queue ∨ _ ∨
      ∃ kept e, (s.enqueuePacket packet priority).1.queue = _ ∧ _
    rcases s.enqueuePacket_cases packet priority with ⟨-, done⟩ | ⟨fits, done⟩ <;> rw [done]
    · exact .inl rfl
    rcases TxPath.enqueuePrebuiltFrame_cases { s with serializer := ⟨s.serializer.sequence + 1⟩ }
      (frameBytes s.serializer.sequence packet.traits.cmd packet.bytes) priority with ⟨-, done⟩ |
        ⟨queue, place, -, done⟩ <;>
      rw [done]
    · exact .inl rfl
    · refine .inr (.inr (.inr ⟨queue, _, rfl, ?_⟩))
      rw [isTelemetryFrame_frameBytes] at place ⊢
      rcases place with room | dropped | ⟨newest, crowded, entitled⟩
      · exact .inl room
      · exact .inr (.inl dropped)
      · exact .inr (.inr ⟨newest, crowded, entitled.imp_right fun t => ⟨t, fits⟩, fun t => ⟨t, fits⟩⟩)
  | replay frame =>
    show (s.enqueuePrebuiltFrame frame true).1.queue = _ ∨ _ = some (s.enqueuePrebuiltFrame frame true).1.queue ∨ _ ∨
      ∃ kept e, (s.enqueuePrebuiltFrame frame true).1.queue = _ ∧ _
    rcases s.enqueuePrebuiltFrame_cases frame true with ⟨-, done⟩ | ⟨queue, place, short, done⟩ <;> rw [done]
    · exact .inl rfl
    · refine .inr (.inr (.inr ⟨queue, _, rfl, ?_⟩))
      rcases place with room | dropped | ⟨newest, crowded, -⟩
      · exact .inl room
      · exact .inr (.inl dropped)
      · exact .inr (.inr ⟨newest, crowded, .inl rfl, fun t => ⟨t, short⟩⟩)
  | drain sendFrame =>
    show (s.drainTx sendFrame).1.queue = _ ∨ _ ∨ (∃ e, _ ∧ s.queue = e :: (s.drainTx sendFrame).1.queue) ∨ _
    unfold TxPath.drainTx
    split
    · rename_i entry queue front
      exact .inr (.inr (.inl ⟨entry, rfl, front⟩))
    · exact .inl rfl

/-- No entry that is not telemetry leaves the queue, but for the front when `send_frame` has
taken it, and for the newest entry of a crowded queue in favour of an ACK or a response. -/
def Spares (s : TxPath) (o : TxOp Ts) : Prop :=
  (∃ new, reliable (s.step o).1.queue = reliable s.queue ++ new) ∨
    (∃ e, o = .drain (some true) ∧ s.queue = e :: (s.step o).1.queue) ∨
    ∃ e, o.priority = true ∧ e.telemetry = false ∧ Crowded s.queue ∧ (s.step o).1.queue = s.queue.dropLast ++ [e]

/-- No telemetry frame is enqueued on a crowded queue. -/
def LeavesRoom (s : TxPath) (o : TxOp Ts) : Prop := o.TelemetryFrame → ¬ Crowded s.queue

theorem displaces {s : TxPath} {o : TxOp Ts} (telemetry : o.TelemetryFrame) (crowded : Crowded s.queue) :
    ∃ e, e.telemetry = true ∧ (s.step o).1.queue = s.queue.dropLast ++ [e] := by
  cases o with
  | packet packet priority =>
    refine ⟨⟨frameBytes s.serializer.sequence packet.traits.cmd packet.bytes, true⟩, rfl, ?_⟩
    show (s.enqueuePacket packet priority).1.queue = _
    rcases s.enqueuePacket_cases packet priority with ⟨long, -⟩ | ⟨-, done⟩
    · have := telemetry.2
      omega
    · rw [done]
      apply @TxPath.enqueuePrebuiltFrame_crowded ⟨⟨s.serializer.sequence + 1⟩, s.queue⟩ _ _ crowded
      · rw [length_frameBytes_packet]
        exact telemetry.2
      · rw [isTelemetryFrame_frameBytes]
        exact telemetry.1
  | replay frame =>
    refine ⟨⟨frame, true⟩, rfl, ?_⟩
    exact TxPath.enqueuePrebuiltFrame_crowded crowded telemetry.2 telemetry.1
  | pending cmd raw => exact telemetry.elim
  | drain sendFrame => exact telemetry.elim

/-- A telemetry frame costs a crowded queue its newest entry. -/
theorem reliable_displaced {s : TxPath} {o : TxOp Ts} (telemetry : o.TelemetryFrame) (crowded : Crowded s.queue) :
    reliable (s.step o).1.queue = s.queue.dropLast := by
  obtain ⟨e, isTelemetry, displaced⟩ := displaces telemetry crowded
  have kept : ∀ x ∈ s.queue.dropLast, x.telemetry = false :=
    fun x member => crowded.2 x ((List.dropLast_subset _) member)
  have nothing : reliable [e] = [] := by simp [reliable, isTelemetry]
  rw [displaced, reliable_append, reliable_of_noTelemetry kept, nothing, List.append_nil]

/-- **When a step spares what is not telemetry.** -/
theorem spares_iff (s : TxPath) (o : TxOp Ts) : Spares s o ↔ LeavesRoom s o := by
  constructor
  · intro spares telemetry crowded
    obtain ⟨e, isTelemetry, displaced⟩ := displaces telemetry crowded
    have size := crowded.1
    have newest : (reliable (s.step o).1.queue).length = s.queue.length - 1 := by
      rw [reliable_displaced telemetry crowded, List.length_dropLast]
    rcases spares with ⟨new, same⟩ | ⟨e', drain, -⟩ | ⟨e', -, notTelemetry, -, same⟩
    · rw [same, reliable_of_noTelemetry crowded.2, List.length_append] at newest
      simp only [TX_QUEUE_CAP] at size
      omega
    · rw [drain] at telemetry
      exact telemetry.elim
    · rw [displaced] at same
      obtain rfl := List.singleton_inj.mp (List.append_cancel_left same)
      rw [isTelemetry] at notTelemetry
      cases notTelemetry
  · intro leaves
    rcases s.step_queue o with same | dropped | drained | ⟨kept, e, queue, place⟩
    · exact .inl ⟨[], by rw [same, List.append_nil]⟩
    · exact .inl ⟨[], by rw [(dropOneTelemetry_eq_some dropped).1, List.append_nil]⟩
    · exact .inr (.inl drained)
    rcases place with ⟨rfl, -⟩ | dropped | ⟨rfl, crowded, entitled, honest⟩
    · exact .inl ⟨reliable [e], by rw [queue, reliable_append]⟩
    · exact .inl ⟨reliable [e], by rw [queue, reliable_append, (dropOneTelemetry_eq_some dropped).1]⟩
    · have plain : ¬ o.TelemetryFrame := fun telemetry => leaves telemetry crowded
      refine .inr (.inr ⟨e, entitled.resolve_right plain, ?_, crowded, queue⟩)
      cases telemetry : e.telemetry with
      | false => rfl
      | true => exact absurd (honest telemetry) plain

/-- **Telemetry costs nothing else** in a run if and only if no step of the run enqueues a
telemetry frame on a queue that has neither room nor telemetry. -/
theorem run_spares_iff (ops : List (TxOp Ts)) :
    (∀ pre o post, ops = pre ++ o :: post → Spares ((transmitter Ts).exec {} pre) o) ↔
      (transmitter Ts).Along LeavesRoom {} ops := by
  rw [(transmitter Ts).along_iff_at_split]
  constructor
  · intro spares pre o post split
    exact (spares_iff _ o).mp (spares pre o post split)
  · intro leaves pre o post split
    exact (spares_iff _ o).mpr (leaves pre o post split)

end Cost

/-- **A telemetry broadcast costs an ACK.** Sixteen ACKs wait; the broadcast takes the place
of the last one. -/
theorem broadcast_displaces_ack :
    let ack : Packet Arm.armPackets := ⟨ackPacket, [1, 0, 0, 0, 0x03, 0x61, 0], by decide, rfl⟩
    let status : Packet Arm.armPackets :=
      ⟨Arm.gripperStatus, [0, 0, 0, 0, 0, 0, 0, 0, 0, 0, 0, 0, 0, 0, 0, 0, 0, 0, 0, 0], by decide, rfl⟩
    let s := (transmitter Arm.armPackets).exec {} (List.replicate 16 (.packet ack true))
    let after := (s.step (.packet status false)).1
    ¬ Spares s (.packet status false) ∧ reliable s.queue = s.queue ∧ s.queue.length = 16 ∧
      reliable after.queue = s.queue.dropLast := by
  intro ack status s after
  have waiting : s.queue.length = 16 ∧ ∀ e ∈ s.queue, e.telemetry = false := by decide +kernel
  have crowded : Crowded s.queue := ⟨Nat.le_of_eq waiting.1.symm, waiting.2⟩
  have telemetry : TxOp.TelemetryFrame (.packet status false) := by
    constructor
    · rfl
    · decide
  refine ⟨?_, reliable_of_noTelemetry waiting.2, waiting.1, reliable_displaced telemetry crowded⟩
  rw [spares_iff]
  intro leaves
  exact leaves telemetry crowded

end FloridUsb.Stack
