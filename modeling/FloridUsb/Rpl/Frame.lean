import FloridUsb.Lib.StreamDecoder
import FloridUsb.Rpl.Crc
import FloridUsb.Rpl.Packet

/-!
# Frames on the wire

The default frame format as a stream decoder, independently of how the parser stores
its bytes: `| 0xA5 | length 2 | seq 1 | crc8 1 | cmd 2 | payload | crc16 2 |`. A byte that
starts no frame is skipped; a valid frame is read whole, also when its command is unknown.
-/

namespace FloridUsb.Rpl
set_option autoImplicit false

open Lib DefaultProtocol

/-- A frame with valid checksums. -/
structure Frame where
  cmd : UInt16
  payload : List UInt8
deriving DecidableEq

/-- The decision on the unread bytes of a stream whose payloads have at most `maxPayload` bytes. -/
def frameVerdict (maxPayload : Nat) (bytes : List UInt8) : Verdict Frame :=
  match bytes.head? with
  | none => .wait
  | some b =>
    if b ≠ startByte then .read 1 []
    else if bytes.length < 7 then .wait
    else if crc8 (bytes.take 4) ≠ bytes.getD 4 0 then .read 1 []
    else if maxPayload < (le16 bytes 1).toNat then .read 1 []
    else if bytes.length < (le16 bytes 1).toNat + 9 then .wait
    else if crc16 (bytes.take ((le16 bytes 1).toNat + 7)) ≠ le16 bytes ((le16 bytes 1).toNat + 7) then .read 1 []
    else .read ((le16 bytes 1).toNat + 9) [⟨le16 bytes 5, slice bytes 7 (le16 bytes 1).toNat⟩]

theorem frameVerdict_progress {maxPayload : Nat} {xs : List UInt8} {n : Nat} {out : List Frame}
    (h : frameVerdict maxPayload xs = .read n out) : 0 < n ∧ n ≤ xs.length := by
  unfold frameVerdict at h
  cases xs with
  | nil => cases h
  | cons b rest =>
    simp only [List.head?_cons, List.length_cons] at h ⊢
    split at h
    · cases h; omega
    split at h
    · cases h
    split at h
    · cases h; omega
    split at h
    · cases h; omega
    split at h
    · cases h
    split at h
    · cases h; omega
    · cases h; omega

theorem frameVerdict_stable {maxPayload : Nat} {xs : List UInt8} {n : Nat} {out : List Frame}
    (ys : List UInt8) (h : frameVerdict maxPayload xs = .read n out) :
    frameVerdict maxPayload (xs ++ ys) = .read n out := by
  cases xs with
  | nil => cases h
  | cons b rest =>
    by_cases hb : b = startByte
    swap
    · simp only [frameVerdict, List.cons_append, List.head?_cons, ne_eq, hb, not_false_eq_true, if_true] at h ⊢
      exact h
    generalize hx : b :: rest = xs at h
    have head : xs.head? = some startByte := by rw [← hx, hb]; rfl
    have head' : (xs ++ ys).head? = some startByte := by rw [← hx, hb]; rfl
    simp only [frameVerdict, head, head', ne_eq, not_true_eq_false, if_false] at h ⊢
    have longer : xs.length ≤ (xs ++ ys).length := by simp
    -- every field is read inside `xs`, once its length has been checked
    by_cases short : xs.length < 7
    · rw [if_pos short] at h; cases h
    have e4 : (xs ++ ys).take 4 = xs.take 4 := List.take_append_of_le_length (by omega)
    have c4 : (xs ++ ys).getD 4 0 = xs.getD 4 0 := List.getD_append _ _ _ _ (by omega)
    have l1 : le16 (xs ++ ys) 1 = le16 xs 1 := le16_append _ _ _ (by omega)
    have l5 : le16 (xs ++ ys) 5 = le16 xs 5 := le16_append _ _ _ (by omega)
    rw [if_neg short] at h
    rw [if_neg (by omega), e4, c4, l1, l5]
    split at h
    · rename_i bad; rw [if_pos bad]; exact h
    rename_i good
    rw [if_neg good]
    split at h
    · rename_i big; rw [if_pos big]; exact h
    rename_i fits
    rw [if_neg fits]
    by_cases part : xs.length < (le16 xs 1).toNat + 9
    · rw [if_pos part] at h; cases h
    rw [if_neg part] at h
    rw [if_neg (by omega), List.take_append_of_le_length (by omega), le16_append _ _ _ (by omega),
      slice_append _ _ (by omega)]
    exact h

/-- The frames of a stream. -/
def frameDecoder (maxPayload : Nat) : StreamDecoder UInt8 Frame where
  verdict := frameVerdict maxPayload
  progress := frameVerdict_progress
  stable := frameVerdict_stable

/-- The one-pass reading of a stream for a list of packet types. -/
def PacketTypes.scan (Ts : PacketTypes) (bytes : List UInt8) : List Frame × List UInt8 :=
  (frameDecoder Ts.maxPayload).scan bytes

end FloridUsb.Rpl
