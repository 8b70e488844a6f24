import FloridUsb.Lib.Bytes

/-!
# Packet types and the default protocol

`RPL::Meta::PacketTraits` and `DefaultProtocol` (`RPL/Meta/PacketTraits.hpp`), and a
`PacketTypes...` list as `ProtocolStack` takes it. A packet type is what the stack reads
of it: the command, the size in bytes, and where its `tx_id` member lies, if it has one.

A list that compiles has pairwise distinct commands: `PacketInfoCollector` makes an
`unordered_map` of them at compile time. It also contains `AckPacket`, which
`handle_request_packet` serializes. `PacketTypes` carries both facts.
-/

namespace FloridUsb.Rpl
set_option autoImplicit false

/-- `PacketTraits<T>` of a packed struct `T`. -/
structure PacketTraits where
  cmd : UInt16
  /-- `sizeof(T)`. -/
  size : Nat
  /-- The offset of `tx_id`, a 32-bit member. -/
  txIdOffset : Option Nat
  size_pos : 0 < size
  txId_fits : ∀ o ∈ txIdOffset, o + 4 ≤ size
deriving DecidableEq

namespace DefaultProtocol

def startByte : UInt8 := 0xA5
def headerSize : Nat := 7
def tailSize : Nat := 2

end DefaultProtocol

open DefaultProtocol

/-- Header, payload and tail. -/
def PacketTraits.frameSize (T : PacketTraits) : Nat := headerSize + T.size + tailSize

/-- A packet with a leading `tx_id` and a payload of the given size. -/
def PacketTraits.reliable (cmd : UInt16) (payload : Nat) : PacketTraits where
  cmd := cmd
  size := 4 + payload
  txIdOffset := some 0
  size_pos := by omega
  txId_fits := by simp

/-- A packet without a `tx_id`. -/
def PacketTraits.unsolicited (cmd : UInt16) (size : Nat) (pos : 0 < size := by decide) : PacketTraits where
  cmd := cmd
  size := size
  txIdOffset := none
  size_pos := pos
  txId_fits := by simp

/-- `AckPacket`: `tx_id`, `cmd_id` and `status`. -/
def ackPacket : PacketTraits := .reliable 0x6FF0 (2 + 1)

/-- The template arguments `PacketTypes...` of a stack. -/
structure PacketTypes where
  types : List PacketTraits
  cmd_nodup : (types.map (·.cmd)).Nodup
  ack_mem : ackPacket ∈ types

namespace PacketTypes

variable (Ts : PacketTypes)

/-- The folds over `PacketTypes...` that act on the first type with the command. -/
def find (cmd : UInt16) : Option PacketTraits := Ts.types.find? (·.cmd = cmd)

/-- `calculate_max_frame_size`. -/
def maxFrameSize : Nat :=
  Ts.types.foldl (fun max T => if T.frameSize > max then T.frameSize else max) 0

/-- The largest payload a frame may announce: `max_frame_size - header_size - tail_size`. -/
def maxPayload : Nat := Ts.maxFrameSize - headerSize - tailSize

end PacketTypes

/-- `std::bit_ceil`. -/
def bitCeil (n : Nat) : Nat := if n ≤ 1 then 1 else 2 ^ (Nat.log2 (n - 1) + 1)

/-- `calculate_buffer_size`. -/
def PacketTypes.bufferSize (Ts : PacketTypes) : Nat := bitCeil (Ts.maxFrameSize * 4)

/-! ### Powers of two -/

theorem bitCeil_le_two_pow {n k : Nat} : bitCeil n ≤ 2 ^ k ↔ n ≤ 2 ^ k := by
  unfold bitCeil
  split
  · have := Nat.one_le_two_pow (n := k)
    omega
  · rename_i h
    rw [Nat.pow_le_pow_iff_right (by omega), Nat.add_one_le_iff, Nat.log2_lt (by omega)]
    omega

theorem bitCeil_isPow (n : Nat) : ∃ k, bitCeil n = 2 ^ k := by
  unfold bitCeil
  split
  · exact ⟨0, rfl⟩
  · exact ⟨_, rfl⟩

theorem le_bitCeil (n : Nat) : n ≤ bitCeil n := by
  obtain ⟨k, hk⟩ := bitCeil_isPow n
  rw [hk]
  exact bitCeil_le_two_pow.mp (Nat.le_of_eq hk)

/-- Above a power of two, the next one is reached. -/
theorem two_pow_succ_le_bitCeil {n k : Nat} (h : 2 ^ k < n) : 2 ^ (k + 1) ≤ bitCeil n := by
  obtain ⟨j, hj⟩ := bitCeil_isPow n
  have above : 2 ^ k < 2 ^ j := by
    have := le_bitCeil n
    omega
  rw [hj]
  exact Nat.pow_le_pow_right (by omega) ((Nat.pow_lt_pow_iff_right (by omega)).mp above)

/-! ### Lists -/

namespace PacketTypes

variable {Ts : PacketTypes} {T : PacketTraits} {cmd : UInt16}

theorem find_eq_some : Ts.find cmd = some T ↔ T ∈ Ts.types ∧ T.cmd = cmd := by
  constructor
  · intro h
    exact ⟨List.mem_of_find?_eq_some h, by simpa using List.find?_some h⟩
  · rintro ⟨member, rfl⟩
    have distinct := Ts.cmd_nodup
    unfold find
    generalize Ts.types = types at member distinct
    induction types with
    | nil => cases member
    | cons U rest ih =>
      rw [List.map_cons, List.nodup_cons] at distinct
      rcases List.mem_cons.mp member with rfl | tail
      · simp
      · have ne : ¬ U.cmd = T.cmd := by
          intro he
          exact distinct.1 (he ▸ List.mem_map_of_mem tail)
        simpa [ne] using ih tail distinct.2

theorem find_mem (h : T ∈ Ts.types) : Ts.find T.cmd = some T := find_eq_some.mpr ⟨h, rfl⟩

theorem frameSize_le_max (h : T ∈ Ts.types) : T.frameSize ≤ Ts.maxFrameSize := by
  have grow : ∀ (l : List PacketTraits) (m : Nat),
      m ≤ l.foldl (fun max T => if T.frameSize > max then T.frameSize else max) m ∧
        ∀ U ∈ l, U.frameSize ≤ l.foldl (fun max T => if T.frameSize > max then T.frameSize else max) m := by
    intro l
    induction l with
    | nil => intro m; simp
    | cons U l ih =>
      intro m
      rw [List.foldl_cons]
      have step := ih (if U.frameSize > m then U.frameSize else m)
      have bigger : m ≤ (if U.frameSize > m then U.frameSize else m) ∧
          U.frameSize ≤ (if U.frameSize > m then U.frameSize else m) := by split <;> omega
      refine ⟨Nat.le_trans bigger.1 step.1, fun V hV => ?_⟩
      rcases List.mem_cons.mp hV with rfl | tail
      · exact Nat.le_trans bigger.2 step.1
      · exact step.2 V tail
  exact (grow Ts.types 0).2 T h

/-- Every list holds the 16-byte ACK frame. -/
theorem sixteen_le_maxFrameSize (Ts : PacketTypes) : 16 ≤ Ts.maxFrameSize :=
  frameSize_le_max Ts.ack_mem

theorem size_le_maxPayload (h : T ∈ Ts.types) : T.size ≤ Ts.maxPayload := by
  have := frameSize_le_max h
  simp only [PacketTraits.frameSize, maxPayload, headerSize, tailSize] at this ⊢
  omega

theorem maxPayload_add (Ts : PacketTypes) : Ts.maxPayload + 9 = Ts.maxFrameSize := by
  have := Ts.sixteen_le_maxFrameSize
  simp only [maxPayload, headerSize, tailSize]
  omega

theorem four_maxFrameSize_le (Ts : PacketTypes) : 4 * Ts.maxFrameSize ≤ Ts.bufferSize := by
  rw [Nat.mul_comm]
  exact le_bitCeil _

/-- The parser buffer has at least 1024 bytes exactly when the largest frame has more than 128. -/
theorem bufferSize_large_iff (Ts : PacketTypes) : 1024 ≤ Ts.bufferSize ↔ 129 ≤ Ts.maxFrameSize := by
  constructor
  · intro h
    have : ¬ Ts.maxFrameSize * 4 ≤ 2 ^ 9 := by
      intro small
      have := bitCeil_le_two_pow.mpr small
      simp only [bufferSize] at h
      omega
    omega
  · intro h
    exact two_pow_succ_le_bitCeil (k := 9) (by omega)

end PacketTypes

end FloridUsb.Rpl
