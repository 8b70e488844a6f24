import FloridUsb.Rpl.BipBuffer
import FloridUsb.Rpl.Frame

/-!
# The parser

`RPL::Parser` (`RPL/Parser.hpp`) for packets of the default protocol: the header, checksum
and payload spans of `parse_frame_impl`, the scan loop of `try_parse_packets`, and
`PacketDispatcher::dispatch` with the `after_parse` hook of `ArmCommand.hpp`, which hands the
object to `ProtocolStack::handle_packet_internal` under the size of its type.

A dispatched payload in one piece is read as an object where it lies, so an object longer
than the payload goes on into the bytes behind it; `outside` is the memory past the buffer.
-/

namespace FloridUsb.Rpl
set_option autoImplicit false

open Lib DefaultProtocol

/-- What a dispatched frame leads to. -/
inductive Call where
  /-- `handle_packet_internal(cmd, data, size)`. -/
  | packet (cmd : UInt16) (data : List UInt8)
  /-- The same call with a null pointer for the data. -/
  | null (cmd : UInt16) (size : Nat)
  /-- A payload in two pieces is copied past the end of the object made for it. -/
  | overrun (cmd : UInt16)
deriving DecidableEq

inductive ParseResult where
  | success | failure | incomplete
deriving DecidableEq

section Definitions

variable (Ts : PacketTypes) (outside : Nat → UInt8)

/-- The object of `n` bytes at an offset of the buffer. -/
def readObject (mem : List UInt8) (off n : Nat) : List UInt8 :=
  (List.range n).map fun i => mem.getD (off + i) (outside (off + i))

/-- `dispatch`: the first type with the command takes the payload. -/
def dispatch (mem : List UInt8) (cmdId : UInt16) (s1 s2 : Span) : List Call :=
  match Ts.find cmdId with
  | none => []
  | some T =>
    if s2.size = 0 then
      match s1.data with
      | none => [.null T.cmd T.size]
      | some off => [.packet T.cmd (readObject outside mem off T.size)]
    else if s1.size + s2.size > T.size then [.overrun T.cmd]
    else [.packet T.cmd (memcpy (memcpy (List.replicate T.size 0) 0 (s1.bytes mem)) s1.size (s2.bytes mem))]

/-- The CRC16 of the first `calcLen` bytes of two pieces. -/
def calcCrcOf (p1 p2 : List UInt8) (calcLen : Nat) : UInt16 :=
  if calcLen ≤ p1.length then crc16 (p1.take calcLen)
  else crc16From (p2.take (calcLen - p1.length)) (crc16 p1)

/-- The received CRC16 at `calcLen`: in either piece, or one byte in each. -/
def recvCrcOf (p1 p2 : List UInt8) (calcLen : Nat) : UInt16 :=
  if calcLen + 2 ≤ p1.length then le16 p1 calcLen
  else if calcLen ≥ p1.length then le16 p2 (calcLen - p1.length)
  else (p1.getD calcLen 0).toUInt16 ||| ((p2.getD 0 0).toUInt16 <<< 8)

/-- The spans of the payload within those of the frame. -/
def payloadSpans (s1 s2 : Span) (dataLen : Nat) : Span × Span :=
  if headerSize < s1.size then
    let p1 := s1.subspan headerSize (s1.size - headerSize)
    if p1.size ≥ dataLen then (p1.subspan 0 dataLen, .null)
    else (p1, s2.subspan 0 (dataLen - p1.size))
  else (.null, s2.subspan (headerSize - s1.size) dataLen)

/-- `parse_frame_impl` on a buffer whose first unread byte is the start byte. -/
def parseFrameImpl (b : BipBuffer) : ParseResult × List Call × BipBuffer :=
  if b.available < headerSize then (.incomplete, [], b)
  else
    let hs := b.getReadSpans 0 headerSize
    let header := if hs.2.size = 0 then hs.1.bytes b.buffer else (b.peek 0 headerSize).getD []
    if crc8 (header.take 4) ≠ header.getD 4 0 then (.failure, [], b)
    else
      let dataLen := (le16 header 1).toNat
      let cmdId := le16 header 5
      if dataLen > Ts.maxFrameSize - headerSize - tailSize then (.failure, [], b)
      else
        let totalLen := headerSize + dataLen + tailSize
        if b.available < totalLen then (.incomplete, [], b)
        else
          let s := b.getReadSpans 0 totalLen
          let p1 := s.1.bytes b.buffer
          let p2 := s.2.bytes b.buffer
          let calcLen := totalLen - tailSize
          if calcCrcOf p1 p2 calcLen ≠ recvCrcOf p1 p2 calcLen then (.failure, [], b)
          else
            let payload := payloadSpans s.1 s.2 dataLen
            (.success, dispatch Ts outside b.buffer cmdId payload.1 payload.2, b.discard totalLen)

/-- The loop of `try_parse_packets`. The inner loop of the source leaves after its first
round in every case: it is the one search for a start byte (`memchr`) in region A. -/
def parseLoop : Nat → BipBuffer → Nat → BipBuffer × List Call
  | 0, b, _ => (b, [])
  | fuel + 1, b, availableBytes =>
    if availableBytes = 0 then (b, [])
    else
      let view := (b.getContiguousReadBuffer).bytes b.buffer
      match view.findIdx? (· = startByte) with
      | none => parseLoop fuel (b.discard view.length) (availableBytes - view.length)
      | some scanOffset =>
        let b := if scanOffset > 0 then b.discard scanOffset else b
        let availableBytes := availableBytes - scanOffset
        match parseFrameImpl Ts outside b with
        | (.success, calls, b) => ((parseLoop fuel b b.available).1, calls ++ (parseLoop fuel b b.available).2)
        | (.failure, _, _) => parseLoop fuel (b.discard 1) (availableBytes - 1)
        | (.incomplete, _, _) => (b, [])

/-- `try_parse_packets`. Every round of the loop uses up a byte, so the fuel is never the limit. -/
def tryParsePackets (b : BipBuffer) : BipBuffer × List Call :=
  parseLoop Ts outside (b.available + 1) b b.available

/-- `push_data`: the flag is false for `BufferOverflow`. -/
def pushData (b : BipBuffer) (data : List UInt8) : BipBuffer × Bool × List Call :=
  match b.write data with
  | (b, false) => (b, false, [])
  | (b, true) => ((tryParsePackets Ts outside b).1, true, (tryParsePackets Ts outside b).2)

/-- `advance_write_index`. -/
def advanceWriteIndex (b : BipBuffer) (length : Nat) : BipBuffer × Bool × List Call :=
  match b.advanceWriteIndex length with
  | (b, false) => (b, false, [])
  | (b, true) => ((tryParsePackets Ts outside b).1, true, (tryParsePackets Ts outside b).2)

end Definitions

end FloridUsb.Rpl
