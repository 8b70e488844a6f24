import FloridUsb.Lib.Lfsr
import FloridUsb.Rpl.ArmPackets
import FloridUsb.Rpl.ParserScan
import FloridUsb.Rpl.Serializer

/-!
# What the checksums of a frame detect

The table of `cppcrc.h` is eight steps of a shift register (`update_eq_run`), so the checksums of
a frame see what such a register sees. A valid frame is not read as one if it is hit by a burst of
at most eight bits, or sixteen past its header (`burst_rejected`), or by up to three single bits
(`flips_rejected`): the header's checksum covers the length, and so where the other one is found.
-/

namespace FloridUsb.Rpl
set_option autoImplicit false

open Lib DefaultProtocol

/-! ### The register of a checksum -/

namespace Crc

variable {w : Nat} {c : Crc w}

/-- The reflected register of a polynomial with a constant term. -/
def lfsr (c : Crc w) (constant : c.poly.getLsbD 0 = true) : Lfsr w :=
  ⟨c.poly.reverse, by rw [BitVec.msb_reverse, constant]⟩

variable (constant : c.poly.getLsbD 0 = true)
include constant

theorem reverse_tableShift (r : BitVec w) : (c.tableShift r).reverse = (c.lfsr constant).shift r.reverse := by
  have low : r.reverse.getLsbD 0 = r.msb := BitVec.getLsbD_reverse
  apply BitVec.eq_of_getLsbD_eq
  intro i inside
  rw [tableShift, Lfsr.shift, low, BitVec.getLsbD_reverse]
  cases r.msb with
  | true =>
    simp only [if_true, BitVec.getMsbD_xor, BitVec.getMsbD_shiftLeft, BitVec.getLsbD_xor, BitVec.getLsbD_ushiftRight,
      BitVec.getLsbD_reverse, lfsr, Nat.add_comm 1 i]
  | false =>
    simp [BitVec.getLsbD_reverse, Nat.add_comm 1 i]

theorem reverse_repeat (n : Nat) (r : BitVec w) :
    (Nat.repeat c.tableShift n r).reverse = (c.lfsr constant).shift^[n] r.reverse := by
  induction n with
  | zero => rfl
  | succ n ih => rw [Nat.repeat, reverse_tableShift constant, ih, Function.iterate_succ_apply']

/-- A table entry is eight shifts of its index. -/
theorem table_eq (wide : 8 ≤ w) (index : BitVec 8) :
    c.table index = (c.lfsr constant).shift^[8] (index.setWidth w) := by
  have entered : ((index.setWidth w).reverse >>> (w - 8)).reverse = index.setWidth w <<< (w - 8) := by
    apply BitVec.eq_of_getLsbD_eq
    intro i inside
    rw [BitVec.getLsbD_reverse, BitVec.getMsbD_ushiftRight, BitVec.getMsbD_reverse, BitVec.getLsbD_shiftLeft]
    by_cases above : i < w - 8 <;> simp [above, inside]
  have arrived : (c.lfsr constant).shift^[w - 8] (index.setWidth w <<< (w - 8)) = index.setWidth w := by
    apply Lfsr.iterate_shiftLeft
    intro i above
    rw [BitVec.getLsbD_setWidth, index.getLsbD_of_ge i (by omega), Bool.and_false]
  have split := Function.iterate_add_apply (c.lfsr constant).shift 8 (w - 8) (index.setWidth w <<< (w - 8))
  rw [Nat.add_sub_cancel' wide, arrived] at split
  rw [table, reverse_repeat constant, entered, split]

/-- **The loop body of `calculate_crc` is eight steps of the register.** -/
theorem update_eq_run (wide : 8 ≤ w) (crc : BitVec w) (byte : UInt8) :
    c.update crc byte = (c.lfsr constant).run crc (Lfsr.bits byte.toBitVec) := by
  have split : crc ^^^ byte.toBitVec.setWidth w =
      (byte.toBitVec ^^^ crc.setWidth 8).setWidth w ^^^ (crc >>> 8) <<< 8 := by
    apply BitVec.eq_of_getLsbD_eq
    intro i inside
    simp only [BitVec.getLsbD_xor, BitVec.getLsbD_setWidth, BitVec.getLsbD_shiftLeft, BitVec.getLsbD_ushiftRight]
    by_cases low : i < 8
    · simp [low, inside, Bool.xor_comm]
    · rw [byte.toBitVec.getLsbD_of_ge i (Nat.le_of_not_lt low)]
      simp [low, inside, show 8 + (i - 8) = i by omega]
  have shifted : (c.lfsr constant).shift^[8] ((crc >>> 8) <<< 8) = crc >>> 8 := by
    apply Lfsr.iterate_shiftLeft
    intro i above
    rw [BitVec.getLsbD_ushiftRight, crc.getLsbD_of_ge _ (by omega)]
  rw [Lfsr.run_eq_shift _ (by rw [Lfsr.length_bits]; exact wide), Lfsr.pack_bits, Lfsr.length_bits, split,
    Lfsr.iterate_xor, shifted, ← table_eq constant wide, update]

end Crc

/-- The bits of a message in the order the checksums take them in. -/
def bitsOf (bytes : List UInt8) : List Bool := bytes.flatMap fun b => Lfsr.bits b.toBitVec

@[simp] theorem bitsOf_append (a b : List UInt8) : bitsOf (a ++ b) = bitsOf a ++ bitsOf b := List.flatMap_append

@[simp] theorem length_bitsOf (bytes : List UInt8) : (bitsOf bytes).length = 8 * bytes.length := by
  induction bytes with
  | nil => rfl
  | cons b bytes ih =>
    rw [bitsOf, List.flatMap_cons, List.length_append, Lfsr.length_bits, List.length_cons, ← bitsOf, ih]
    omega

theorem Crc.calculateCrc_eq_run {w : Nat} {c : Crc w} (constant : c.poly.getLsbD 0 = true) (wide : 8 ≤ w)
    (bytes : List UInt8) (crc : BitVec w) :
    c.calculateCrc bytes crc = (c.lfsr constant).run crc.reverse (bitsOf bytes) := by
  rw [calculateCrc]
  generalize crc.reverse = r
  induction bytes generalizing r with
  | nil => rfl
  | cons b bytes ih =>
    rw [List.foldl_cons, update_eq_run constant wide, ih, ← Lfsr.run_append]
    rfl

/-- The register of `ProtocolCRC8`. -/
def header8 : Lfsr 8 := protocolCRC8.lfsr (by decide)

/-- The register of `ProtocolCRC16`. -/
def frame16 : Lfsr 16 := protocolCRC16.lfsr (by decide)

theorem crc8_eq_run (bytes : List UInt8) : (crc8 bytes).toBitVec = header8.run 0xFF (bitsOf bytes) := by
  show protocolCRC8.calculateCrc bytes protocolCRC8.nullCrc.reverse = _
  rw [Crc.calculateCrc_eq_run (c := protocolCRC8) (by decide) (by decide), BitVec.reverse_reverse_eq]
  rfl

theorem crc16_eq_run (bytes : List UInt8) : (crc16 bytes).toBitVec = frame16.run 0xFFFF (bitsOf bytes) := by
  show protocolCRC16.calculateCrc bytes protocolCRC16.nullCrc.reverse = _
  rw [Crc.calculateCrc_eq_run (c := protocolCRC16) (by decide) (by decide), BitVec.reverse_reverse_eq]
  rfl

/-! ### Valid frames as codewords -/

theorem bitsOf_take {bytes : List UInt8} {k : Nat} (enough : k ≤ bytes.length) :
    bitsOf (bytes.take k) = (bitsOf bytes).take (8 * k) := by
  have split := congrArg bitsOf (List.take_append_drop k bytes)
  have length : (bitsOf (bytes.take k)).length = 8 * k := by
    rw [length_bitsOf, List.length_take, Nat.min_eq_left enough]
  rw [← split, bitsOf_append, List.take_left' length]

theorem bitsOf_inj {a b : List UInt8} (same : bitsOf a = bitsOf b) : a = b := by
  have lengths : a.length = b.length := by
    have bits := congrArg List.length same
    rw [length_bitsOf, length_bitsOf] at bits
    omega
  induction a generalizing b with
  | nil => exact (List.length_eq_zero_iff.mp lengths.symm).symm
  | cons x a ih =>
    cases b with
    | nil => cases lengths
    | cons y b =>
      obtain ⟨head, tail⟩ := List.append_inj (by simpa [bitsOf] using same) (by rw [Lfsr.length_bits, Lfsr.length_bits])
      have first := UInt8.toBitVec_inj.mp (Lfsr.bits_inj head)
      rw [first, ih tail (Nat.succ.inj lengths)]

/-- The header checksum fits if and only if the register of the five bytes is zero. -/
theorem header_fits_iff {bytes : List UInt8} (enough : 5 ≤ bytes.length) :
    crc8 (bytes.take 4) = bytes.getD 4 0 ↔ header8.run 0xFF (bitsOf (bytes.take 5)) = 0#8 := by
  have split : bytes.take 5 = bytes.take 4 ++ [bytes.getD 4 0] := by
    rw [List.take_add_one, List.getD_eq_getElem?_getD, List.getElem?_eq_getElem (by omega)]
    rfl
  have check : bitsOf [bytes.getD 4 0] = Lfsr.bits (bytes.getD 4 0).toBitVec := List.append_nil _
  rw [split, bitsOf_append, check, Lfsr.run_append, Lfsr.run_eq_zero _ (Lfsr.length_bits _), Lfsr.pack_bits,
    BitVec.setWidth_eq, ← crc8_eq_run, UInt8.toBitVec_inj, eq_comm]

theorem pack_word (lo hi : UInt8) :
    (Lfsr.pack (bitsOf [lo, hi]) : BitVec 16) = (lo.toUInt16 ||| (hi.toUInt16 <<< 8)).toBitVec := by
  have bytes : bitsOf [lo, hi] = Lfsr.bits lo.toBitVec ++ Lfsr.bits hi.toBitVec := by simp [bitsOf]
  rw [bytes, Lfsr.pack_append, Lfsr.pack_bits, Lfsr.pack_bits, Lfsr.length_bits]
  apply BitVec.eq_of_getLsbD_eq
  intro i inside
  simp only [UInt16.toBitVec_or, UInt16.toBitVec_shiftLeft, UInt8.toBitVec_toUInt16, BitVec.getLsbD_xor,
    BitVec.getLsbD_or, BitVec.getLsbD_setWidth]
  by_cases low : i < 8
  · simp [low]
  · rw [lo.toBitVec.getLsbD_of_ge i (Nat.le_of_not_lt low)]
    simp

/-- The frame checksum fits if and only if the register of the frame is zero. -/
theorem frame_fits_iff {bytes : List UInt8} {n : Nat} (enough : n + 2 ≤ bytes.length) :
    crc16 (bytes.take n) = le16 bytes n ↔ frame16.run 0xFFFF (bitsOf (bytes.take (n + 2))) = 0#16 := by
  have split : bytes.take (n + 2) = bytes.take n ++ [bytes.getD n 0, bytes.getD (n + 1) 0] := by
    rw [List.take_add_one, List.take_add_one, List.getD_eq_getElem?_getD, List.getD_eq_getElem?_getD,
      List.getElem?_eq_getElem (by omega), List.getElem?_eq_getElem (by omega), List.append_assoc]
    rfl
  rw [split, bitsOf_append, Lfsr.run_append, frame16.run_eq_zero (length_bitsOf _), pack_word, ← crc16_eq_run,
    UInt16.toBitVec_inj, eq_comm]
  rfl

/-- What a frame that is read as a whole says about itself. -/
theorem frameVerdict_whole {maxPayload : Nat} {frame : List UInt8} {f : Frame}
    (valid : frameVerdict maxPayload frame = .read frame.length [f]) :
    (le16 frame 1).toNat ≤ maxPayload ∧ frame.length = (le16 frame 1).toNat + 9 ∧
      header8.run 0xFF (bitsOf (frame.take 5)) = 0#8 ∧ frame16.run 0xFFFF (bitsOf frame) = 0#16 := by
  unfold frameVerdict at valid
  cases head : frame.head? with
  | none =>
    rw [head] at valid
    cases valid
  | some b =>
    rw [head] at valid
    have other : Verdict.read 1 [] ≠ Verdict.read frame.length [f] := by simp
    dsimp only at valid
    split at valid
    · exact absurd valid other
    split at valid
    · cases valid
    split at valid
    · exact absurd valid other
    rename_i header
    split at valid
    · exact absurd valid other
    rename_i fits
    split at valid
    · cases valid
    rename_i enough
    split at valid
    · exact absurd valid other
    rename_i frames
    obtain ⟨length, -⟩ := Verdict.read.inj valid
    rw [ne_eq, not_not, header_fits_iff (by omega)] at header
    rw [ne_eq, not_not, frame_fits_iff (by omega), List.take_of_length_le (by omega)] at frames
    exact ⟨Nat.le_of_not_lt fits, length.symm, header, frames⟩

/-! ### Damaged frames -/

/-- Damage that the two checksums together see, in frames of at most 512 bytes. -/
inductive Damage (frame damaged : List UInt8) : Prop where
  | burst (hit : Lfsr.DifferWithin 8 (bitsOf frame) (bitsOf damaged))
  | burstPastHeader (hit : Lfsr.DifferWithin 16 (bitsOf frame) (bitsOf damaged))
      (header : damaged.take 5 = frame.take 5)
  | flips (length : damaged.length = frame.length) (some_ : 0 < Lfsr.flips (bitsOf frame) (bitsOf damaged))
      (few : Lfsr.flips (bitsOf frame) (bitsOf damaged) ≤ 3)

namespace Damage

variable {frame damaged : List UInt8}

theorem length_eq (damage : Damage frame damaged) : damaged.length = frame.length := by
  have of_window : ∀ {n}, Lfsr.DifferWithin n (bitsOf frame) (bitsOf damaged) → damaged.length = frame.length := by
    intro n hit
    have bits := hit.length
    rw [length_bitsOf, length_bitsOf] at bits
    omega
  cases damage with
  | burst hit => exact of_window hit
  | burstPastHeader hit header => exact of_window hit
  | flips length some_ few => exact length

/-- Damage to the first five bytes changes the register of the header. -/
theorem header_seen (damage : Damage frame damaged) (enough : 5 ≤ frame.length)
    (hit : damaged.take 5 ≠ frame.take 5) :
    header8.run 0xFF (bitsOf (frame.take 5)) ≠ header8.run 0xFF (bitsOf (damaged.take 5)) := by
  have length := damage.length_eq
  have front : (bitsOf frame).take 40 ≠ (bitsOf damaged).take 40 := by
    rw [← bitsOf_take (k := 5) enough, ← bitsOf_take (k := 5) (by omega)]
    exact fun same => hit (bitsOf_inj same).symm
  rw [bitsOf_take enough, bitsOf_take (by omega)]
  cases damage with
  | burst window => exact header8.run_burst (window.take 40 front) _
  | burstPastHeader window header => exact absurd header hit
  | flips _ some_ few =>
    have lengths : ((bitsOf frame).take 40).length = ((bitsOf damaged).take 40).length := by
      rw [List.length_take, List.length_take, length_bitsOf, length_bitsOf, length]
    refine header8.run_flips (n := 40) (by decide) (by decide +kernel) lengths ?_ (Lfsr.flips_pos lengths front)
      (Nat.le_trans (Lfsr.flips_take_le _ _ _) few) _
    rw [List.length_take]
    omega

/-- Damage past the header changes the register of the frame. -/
theorem frame_seen (damage : Damage frame damaged) (short : frame.length ≤ 512) :
    frame16.run 0xFFFF (bitsOf frame) ≠ frame16.run 0xFFFF (bitsOf damaged) := by
  have length := damage.length_eq
  cases damage with
  | burst hit => exact frame16.run_burst (hit.mono (by decide)) _
  | burstPastHeader hit header => exact frame16.run_burst hit _
  | flips _ some_ few =>
    refine frame16.run_flips (n := 4096) (by decide) (by decide +kernel) ?_ ?_ some_ few _
    · rw [length_bitsOf, length_bitsOf, length]
    · rw [length_bitsOf]
      omega

/-- A damaged frame is not read where it stands, whatever follows. -/
theorem verdict (damage : Damage frame damaged) {maxPayload : Nat} {f : Frame}
    (valid : frameVerdict maxPayload frame = .read frame.length [f]) (short : frame.length ≤ 512)
    (later : List UInt8) : frameVerdict maxPayload (damaged ++ later) = .read 1 [] := by
  obtain ⟨fits, whole, header, sum⟩ := frameVerdict_whole valid
  have length := damage.length_eq
  obtain ⟨b, rest, rfl⟩ : ∃ b rest, damaged = b :: rest :=
    List.exists_cons_of_ne_nil (List.ne_nil_of_length_pos (by omega))
  unfold frameVerdict
  rw [List.cons_append, List.head?_cons]
  dsimp only
  split
  · rfl
  rw [← List.cons_append, if_neg (by rw [List.length_append]; omega)]
  split
  · rfl
  rename_i headerFits
  rw [ne_eq, not_not, header_fits_iff (by rw [List.length_append]; omega),
    List.take_append_of_le_length (by omega)] at headerFits
  -- the checksum of the header fits, so the header is intact and the length is the old one
  have intact : (b :: rest).take 5 = frame.take 5 := by
    by_contra hit
    exact damage.header_seen (by omega) hit (header.trans headerFits.symm)
  have size : le16 ((b :: rest) ++ later) 1 = le16 frame 1 := by
    rw [le16_append _ _ _ (by omega), ← le16_take (n := 5) (by omega) (by omega), intact,
      le16_take (by omega) (by omega)]
  rw [size, if_neg (by omega), if_neg (by rw [List.length_append]; omega), if_pos]
  rw [ne_eq, frame_fits_iff (by rw [List.length_append]; omega), List.take_left' (by omega)]
  exact fun zero => damage.frame_seen short (sum.trans zero.symm)

end Damage

/-- **Damaged frames are rejected.** In a parser buffer that holds a valid frame as it was damaged
on the way, and anything behind it, `parse_frame_impl` fails at the frame's place unless no start
byte is found there, and the scan goes on one byte further. -/
theorem damage_rejected (Ts : PacketTypes) (outside : Nat → UInt8) {frame damaged later : List UInt8} {f : Frame}
    (valid : frameVerdict Ts.maxPayload frame = .read frame.length [f]) (short : frame.length ≤ 512)
    (damage : Damage frame damaged) {b : BipBuffer} (wf : b.Wf) (content : b.content = damaged ++ later) :
    (b.content.head? = some startByte → parseFrameImpl Ts outside b = (.failure, [], b)) ∧
      Ts.scan b.content = Ts.scan (b.content.drop 1) := by
  have verdict := damage.verdict valid short later
  rw [← content] at verdict
  constructor
  · intro start
    rcases parseFrameImpl_spec Ts outside wf start with ⟨waits, -⟩ | ⟨-, fails⟩ | ⟨n, g, calls, reads, -⟩
    · rw [verdict] at waits
      cases waits
    · exact fails
    · rw [verdict] at reads
      cases reads
  · exact (frameDecoder Ts.maxPayload).scan_read verdict

/-- An ACK two bits of whose `tx_id` have changed. -/
theorem damage_rejected_ack :
    let frame := frameBytes 3 0x6FF0 [1, 0, 0, 0, 3, 0x61, 0]
    let damaged := frame.set 8 0x81
    let b := ((BipBuffer.init 1024).write damaged).1
    parseFrameImpl Arm.testArm (fun _ => 0) b = (.failure, [], b) := by
  intro frame damaged b
  have room : (BipBuffer.init 1024).Fits damaged.length := .inl (by decide +kernel)
  obtain ⟨-, wf, content, -⟩ := (BipBuffer.wf_init 1024).write room
  have stored : b.content = damaged ++ [] := by
    rw [content]
    decide +kernel
  have damage : Damage frame damaged := .flips (by decide +kernel) (by decide +kernel) (by decide +kernel)
  have valid : frameVerdict Arm.testArm.maxPayload frame = .read frame.length [⟨0x6FF0, [1, 0, 0, 0, 3, 0x61, 0]⟩] :=
    frameVerdict_frameBytes 3 0x6FF0 (by decide +kernel) (by decide)
  apply (damage_rejected Arm.testArm (fun _ => 0) valid (by decide +kernel) damage wf stored).1
  rw [stored]
  decide +kernel

end FloridUsb.Rpl
