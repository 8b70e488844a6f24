import FloridUsb.Lib.Bytes

/-!
# Checksums of a frame

`crc_utils::crc` (`3rdparty/cppcrc/cppcrc.h`) for the two configurations of
`RPL/Utils/Def.hpp`. Both reflect input and output and XOR nothing out, so only that
branch of `calculate_crc` is embedded. The lookup table is computed entry by entry.

A checksum of bytes that lie in two pieces is continued from the first piece to the
second (`calcCrc_append`); this is how the parser reads a frame across a buffer boundary.
-/

namespace FloridUsb.Rpl
set_option autoImplicit false

/-- `crc<out_t, poly, init, true, true, 0>`. -/
structure Crc (w : Nat) where
  poly : BitVec w
  init : BitVec w

namespace Crc

variable {w : Nat} (c : Crc w)

/-- One shift of the table computation. -/
def tableShift (remainder : BitVec w) : BitVec w :=
  if remainder.msb then (remainder <<< 1) ^^^ c.poly else remainder <<< 1

/-- `get_crc_table_value_at_index`. -/
def table (index : BitVec 8) : BitVec w :=
  (Nat.repeat c.tableShift w ((index.setWidth w).reverse >>> (w - 8))).reverse

/-- The loop body of `calculate_crc`. -/
def update (crc : BitVec w) (byte : UInt8) : BitVec w :=
  c.table (byte.toBitVec ^^^ crc.setWidth 8) ^^^ (crc >>> 8)

/-- `calculate_crc` for `refl_in`: the accumulator is kept reflected. -/
def calculateCrc (bytes : List UInt8) (crc : BitVec w) : BitVec w :=
  bytes.foldl c.update crc.reverse

/-- `null_crc`, the checksum of no data. -/
def nullCrc : BitVec w := c.init.reverse

/-- `calc` of the source, which may continue from the checksum of earlier bytes. -/
def calcCrc (bytes : List UInt8) (prior : BitVec w) : BitVec w :=
  c.calculateCrc bytes prior.reverse

/-- Continuing a checksum is the checksum of the concatenation. -/
theorem calcCrc_append (a b : List UInt8) (prior : BitVec w) :
    c.calcCrc (a ++ b) prior = c.calcCrc b (c.calcCrc a prior) := by
  simp only [calcCrc, calculateCrc, BitVec.reverse_reverse_eq, List.foldl_append]

end Crc

/-- `ProtocolCRC8`: poly 0x31, init 0xFF. -/
def protocolCRC8 : Crc 8 := ⟨0x31, 0xFF⟩

/-- `ProtocolCRC16`, CRC-16/MCRF4XX: poly 0x1021, init 0xFFFF. -/
def protocolCRC16 : Crc 16 := ⟨0x1021, 0xFFFF⟩

/-- `ProtocolCRC8::calc`. -/
def crc8 (bytes : List UInt8) : UInt8 := ⟨protocolCRC8.calcCrc bytes protocolCRC8.nullCrc⟩

/-- `ProtocolCRC16::calc` with a prior value. -/
def crc16From (bytes : List UInt8) (prior : UInt16) : UInt16 := ⟨protocolCRC16.calcCrc bytes prior.toBitVec⟩

/-- `ProtocolCRC16::calc`. -/
def crc16 (bytes : List UInt8) : UInt16 := crc16From bytes ⟨protocolCRC16.nullCrc⟩

theorem crc16_append (a b : List UInt8) : crc16 (a ++ b) = crc16From b (crc16 a) := by
  rw [crc16, crc16, crc16From, crc16From, crc16From, Crc.calcCrc_append]

/-- The check values of the two configurations on the digits `123456789`. -/
example : crc8 [0x31, 0x32, 0x33, 0x34, 0x35, 0x36, 0x37, 0x38, 0x39] = 0x0B ∧
    crc16 [0x31, 0x32, 0x33, 0x34, 0x35, 0x36, 0x37, 0x38, 0x39] = 0x6F91 := by
  decide +kernel

end FloridUsb.Rpl
