import FloridUsb.Rpl.Frame

/-!
# The serializer

`RPL::Serializer::serialize` (`RPL/Serializer.hpp`) for one packet of the default
protocol, which is how the stack calls it. The frame it writes is read back by the frame
decoder, whatever the sequence number and the payload (`frameVerdict_frameBytes`).
-/

namespace FloridUsb.Rpl
set_option autoImplicit false

open Lib DefaultProtocol

/-- A packet of a listed type: the bytes of the struct. -/
structure Packet (Ts : PacketTypes) where
  traits : PacketTraits
  bytes : List UInt8
  mem : traits ∈ Ts.types
  length_bytes : bytes.length = traits.size

/-- The content of the packet's frame. -/
def Packet.content {Ts : PacketTypes} (packet : Packet Ts) : Frame := ⟨packet.traits.cmd, packet.bytes⟩

namespace PacketTraits

/-- The struct's bytes with its `tx_id` member assigned. -/
def setTxId (T : PacketTraits) (bytes : List UInt8) (txId : UInt32) : List UInt8 :=
  match T.txIdOffset with
  | some o => memcpy bytes o (le32Bytes txId)
  | none => bytes

/-- The `tx_id` member of the struct's bytes; 0 for a struct without one. -/
def getTxId (T : PacketTraits) (bytes : List UInt8) : UInt32 :=
  match T.txIdOffset with
  | some o => le32 bytes o
  | none => 0

theorem length_setTxId {T : PacketTraits} {bytes : List UInt8} (txId : UInt32) (h : bytes.length = T.size) :
    (T.setTxId bytes txId).length = T.size := by
  unfold setTxId
  cases ho : T.txIdOffset with
  | none => exact h
  | some o =>
    have := T.txId_fits o ho
    rw [length_memcpy (by rw [length_le32Bytes, h]; exact this), h]

/-- A `tx_id` put into a packet is the one read from it. -/
theorem getTxId_setTxId {T : PacketTraits} {bytes : List UInt8} {o : Nat} (txId : UInt32)
    (h : bytes.length = T.size) (ho : T.txIdOffset = some o) : T.getTxId (T.setTxId bytes txId) = txId := by
  have fits := T.txId_fits o ho
  have front : (bytes.take o).length = o := by
    rw [List.length_take]
    omega
  simp only [getTxId, setTxId, ho]
  conv => lhs; rw [← front]
  rw [front, memcpy, List.append_assoc]
  conv => lhs; arg 2; rw [← front]
  exact le32_le32Bytes (bytes.take o) _ txId

end PacketTraits

/-- The bytes before the payload: start byte, length, sequence number, CRC8 of these four, command. -/
def headerBytes (seq : UInt8) (cmd : UInt16) (size : Nat) : List UInt8 :=
  let front := startByte :: (le16Bytes (UInt16.ofNat size) ++ [seq])
  front ++ (crc8 front :: le16Bytes cmd)

/-- A whole frame: header, payload and CRC16 of both. -/
def frameBytes (seq : UInt8) (cmd : UInt16) (payload : List UInt8) : List UInt8 :=
  let body := headerBytes seq cmd payload.length ++ payload
  body ++ le16Bytes (crc16 body)

/-- `Serializer<PacketTypes...>`. -/
structure Serializer where
  sequence : UInt8 := 0

/-- `serialize(buffer, size, packet)`: the frame, unless the buffer is too small. -/
def Serializer.serialize {Ts : PacketTypes} (s : Serializer) (size : Nat) (packet : Packet Ts) :
    Option (List UInt8 × Serializer) :=
  if size < packet.traits.frameSize then none
  else some (frameBytes s.sequence packet.traits.cmd packet.bytes, ⟨s.sequence + 1⟩)

@[simp] theorem length_headerBytes (seq : UInt8) (cmd : UInt16) (size : Nat) :
    (headerBytes seq cmd size).length = 7 := rfl

@[simp] theorem length_frameBytes (seq : UInt8) (cmd : UInt16) (payload : List UInt8) :
    (frameBytes seq cmd payload).length = payload.length + 9 := by
  simp only [frameBytes, List.length_append, length_headerBytes, length_le16Bytes]
  omega

/-- The command lies at bytes 5 and 6. -/
theorem le16_frameBytes_cmd (seq : UInt8) (cmd : UInt16) (payload : List UInt8) :
    le16 (frameBytes seq cmd payload) 5 = cmd := by
  rw [frameBytes, headerBytes]
  simp only [List.append_assoc, List.cons_append, List.nil_append]
  exact le16_le16Bytes [startByte, _, _, seq, _] _ cmd

/-- **A frame is read back**: the decoder takes it whole and yields its command and payload. -/
theorem frameVerdict_frameBytes {maxPayload : Nat} (seq : UInt8) (cmd : UInt16) {payload : List UInt8}
    (fits : payload.length ≤ maxPayload) (word : payload.length < 2 ^ 16) :
    frameVerdict maxPayload (frameBytes seq cmd payload) =
      .read (frameBytes seq cmd payload).length [⟨cmd, payload⟩] := by
  generalize hf : frameBytes seq cmd payload = f
  have len : f.length = payload.length + 9 := by rw [← hf, length_frameBytes]
  have head : f.head? = some startByte := by rw [← hf]; rfl
  have front : f.take 4 = startByte :: (le16Bytes (UInt16.ofNat payload.length) ++ [seq]) := by rw [← hf]; rfl
  have check : f.getD 4 0 = crc8 (startByte :: (le16Bytes (UInt16.ofNat payload.length) ++ [seq])) := by
    rw [← hf]; rfl
  have size : (le16 f 1).toNat = payload.length := by
    have : le16 f 1 = UInt16.ofNat payload.length := by
      rw [← hf, frameBytes, headerBytes]
      simp only [List.append_assoc, List.cons_append, List.nil_append]
      exact le16_le16Bytes [startByte] _ _
    rw [this, UInt16.toNat_ofNat_of_lt' word]
  have cmdField : le16 f 5 = cmd := by rw [← hf, le16_frameBytes_cmd]
  have body : f.take (payload.length + 7) = headerBytes seq cmd payload.length ++ payload := by
    rw [← hf, frameBytes, List.take_left' (by rw [List.length_append, length_headerBytes]; omega)]
  have tail : le16 f (payload.length + 7) = crc16 (headerBytes seq cmd payload.length ++ payload) := by
    have at_ : payload.length + 7 = (headerBytes seq cmd payload.length ++ payload).length := by
      rw [List.length_append, length_headerBytes]; omega
    rw [← hf, frameBytes, at_]
    have := le16_le16Bytes (headerBytes seq cmd payload.length ++ payload) []
      (crc16 (headerBytes seq cmd payload.length ++ payload))
    rwa [List.append_nil] at this
  have content : slice f 7 payload.length = payload := by
    rw [← hf, frameBytes, List.append_assoc, slice, List.drop_left' (length_headerBytes seq cmd payload.length),
      List.take_left]
  have notBig : ¬ maxPayload < payload.length := by omega
  simp only [frameVerdict, head, front, check, size, cmdField, body, tail, content, len, ne_eq, not_true_eq_false,
    if_false, notBig]
  rw [if_neg (by omega), if_neg (by omega)]

/-- A stream of frames is read frame by frame, to its end. -/
theorem scan_frames (Ts : PacketTypes) {frames : List (UInt8 × Frame)}
    (fits : ∀ f ∈ frames, f.2.payload.length ≤ Ts.maxPayload ∧ f.2.payload.length < 2 ^ 16) :
    Ts.scan (frames.flatMap fun f => frameBytes f.1 f.2.cmd f.2.payload) = (frames.map Prod.snd, []) := by
  rw [List.map_eq_flatMap]
  exact (frameDecoder Ts.maxPayload).scan_flatMap _ _ fun f hf =>
    frameVerdict_frameBytes f.1 f.2.cmd (fits f hf).1 (fits f hf).2

theorem scan_frameBytes (Ts : PacketTypes) (seq : UInt8) (cmd : UInt16) {payload : List UInt8}
    (fits : payload.length ≤ Ts.maxPayload) (word : payload.length < 2 ^ 16) :
    Ts.scan (frameBytes seq cmd payload) = ([⟨cmd, payload⟩], []) := by
  have one := scan_frames Ts (show ∀ f ∈ [(seq, (⟨cmd, payload⟩ : Frame))], _ ∧ _ by simpa using ⟨fits, word⟩)
  simpa using one

/-- The one frame that the bytes are. -/
def readFrame (Ts : PacketTypes) (bytes : List UInt8) : Option Frame :=
  match Ts.scan bytes with
  | ([f], []) => some f
  | _ => none

/-- The frame of a packet is read as its content. -/
theorem readFrame_frameBytes {Ts : PacketTypes} (seq : UInt8) (packet : Packet Ts)
    (word : packet.traits.frameSize < 2 ^ 16) :
    readFrame Ts (frameBytes seq packet.traits.cmd packet.bytes) = some packet.content := by
  have size := packet.length_bytes
  have fits : packet.bytes.length ≤ Ts.maxPayload := by
    rw [size]
    exact PacketTypes.size_le_maxPayload packet.mem
  simp only [PacketTraits.frameSize] at word
  rw [readFrame, scan_frameBytes Ts seq _ fits (by omega)]
  rfl

/-- A part of a frame is no frame. -/
theorem readFrame_take {Ts : PacketTypes} (seq : UInt8) (packet : Packet Ts)
    (word : packet.traits.frameSize < 2 ^ 16) {n : Nat}
    (short : n < (frameBytes seq packet.traits.cmd packet.bytes).length) :
    readFrame Ts ((frameBytes seq packet.traits.cmd packet.bytes).take n) = none := by
  have size := packet.length_bytes
  have fits : packet.bytes.length ≤ Ts.maxPayload := by
    rw [size]
    exact PacketTypes.size_le_maxPayload packet.mem
  simp only [PacketTraits.frameSize] at word
  have whole := frameVerdict_frameBytes seq packet.traits.cmd fits (by omega)
  generalize frameBytes seq packet.traits.cmd packet.bytes = frame at short whole
  cases part : frameVerdict Ts.maxPayload (frame.take n) with
  | wait => rw [readFrame, PacketTypes.scan, (frameDecoder Ts.maxPayload).scan_wait part]
  | read m out =>
    -- a decision on the part would be one on the whole frame
    have decided := frameVerdict_stable (frame.drop n) part
    rw [List.take_append_drop, whole] at decided
    have bound := (frameVerdict_progress part).2
    rw [← (Verdict.read.inj decided).1, List.length_take] at bound
    omega

/-- What the serializer writes for a packet. -/
theorem Serializer.serialize_eq_some {Ts : PacketTypes} {s s' : Serializer} {size : Nat} {packet : Packet Ts}
    {frame : List UInt8} (h : s.serialize size packet = some (frame, s')) :
    packet.traits.frameSize ≤ size ∧ frame = frameBytes s.sequence packet.traits.cmd packet.bytes ∧
      s' = ⟨s.sequence + 1⟩ := by
  unfold serialize at h
  split at h
  · cases h
  · cases h
    exact ⟨by omega, rfl, rfl⟩

end FloridUsb.Rpl
