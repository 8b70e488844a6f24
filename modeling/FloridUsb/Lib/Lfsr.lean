import Mathlib.Data.List.GetD
import Mathlib.Logic.Function.Iterate

/-!
# Checksums by shift register

A cyclic checksum, bit by bit: a register that is shifted towards bit 0 and takes in its taps
whenever a one is shifted out. Feeding a bit is linear and loses nothing, so the register tells
two messages apart that differ in a window no wider than itself (`run_burst`). If moreover the
taps are odd in number and do not come around too soon, it tells apart messages that differ in
one, two or three bits (`run_flips`).
-/

namespace FloridUsb.Lib
set_option autoImplicit false

/-- A shift register whose last tap is set, so that a shift loses nothing. -/
structure Lfsr (w : Nat) where
  taps : BitVec w
  closed : taps.msb = true

namespace Lfsr

variable {w : Nat}

/-- A bit, as it enters the register. -/
def bit (b : Bool) : BitVec w := (BitVec.ofBool b).setWidth w

/-- Up to `w` bits as a register, the first one at bit 0. -/
def pack : List Bool → BitVec w
  | [] => 0#w
  | b :: bs => bit b ^^^ pack bs <<< 1

/-- The bits of a register, bit 0 first. -/
def bits (r : BitVec w) : List Bool := (List.range w).map r.getLsbD

variable (L : Lfsr w)

def shift (r : BitVec w) : BitVec w := r >>> 1 ^^^ if r.getLsbD 0 then L.taps else 0#w

def feed (r : BitVec w) (b : Bool) : BitVec w := L.shift (r ^^^ bit b)

def run (r : BitVec w) (bits : List Bool) : BitVec w := bits.foldl L.feed r

/-! ### Bits and registers -/

@[simp] theorem bit_false : (bit false : BitVec w) = 0#w := by
  apply BitVec.eq_of_getLsbD_eq
  simp [bit]

theorem getLsbD_bit (b : Bool) (i : Nat) :
    (bit b : BitVec w).getLsbD i = (decide (i < w) && (decide (i = 0) && b)) := by
  cases i <;> simp [bit]

theorem bit_xor (a b : Bool) : (bit (a ^^ b) : BitVec w) = bit a ^^^ bit b := by
  apply BitVec.eq_of_getLsbD_eq
  intro i inside
  rw [BitVec.getLsbD_xor, getLsbD_bit, getLsbD_bit, getLsbD_bit]
  cases a <;> cases b <;> simp

theorem getLsbD_pack (bs : List Bool) (i : Nat) :
    (pack bs : BitVec w).getLsbD i = (decide (i < w) && bs.getD i false) := by
  induction bs generalizing i with
  | nil => simp [pack]
  | cons b bs ih =>
    rw [pack, BitVec.getLsbD_xor, getLsbD_bit, BitVec.getLsbD_shiftLeft, ih]
    cases i with
    | zero => simp
    | succ i =>
      by_cases inside : i + 1 < w
      · simp [inside, Nat.lt_of_succ_lt inside]
      · simp [inside]

/-- No more bits than the register has are kept apart. -/
theorem pack_inj {a b : List Bool} (same : a.length = b.length) (fits : a.length ≤ w)
    (packed : (pack a : BitVec w) = pack b) : a = b := by
  apply List.ext_getElem same
  intro i inA inB
  have here := congrArg (·.getLsbD i) packed
  simp only [getLsbD_pack] at here
  simpa [show i < w by omega, inA, inB] using here

@[simp] theorem length_bits (r : BitVec w) : (bits r).length = w := by
  rw [bits, List.length_map, List.length_range]

theorem pack_bits {n : Nat} (r : BitVec n) : (pack (bits r) : BitVec w) = r.setWidth w := by
  apply BitVec.eq_of_getLsbD_eq
  intro i inside
  rw [getLsbD_pack, BitVec.getLsbD_setWidth, bits]
  by_cases within : i < n
  · simp [within]
  · rw [r.getLsbD_of_ge i (Nat.le_of_not_lt within)]
    simp [within]

theorem bits_inj {r s : BitVec w} (same : bits r = bits s) : r = s := by
  have packed : (pack (bits r) : BitVec w) = pack (bits s) := by rw [same]
  rwa [pack_bits, pack_bits, BitVec.setWidth_eq, BitVec.setWidth_eq] at packed

theorem pack_append (a b : List Bool) : (pack (a ++ b) : BitVec w) = pack a ^^^ pack b <<< a.length := by
  induction a with
  | nil => simp [pack]
  | cons x a ih =>
    rw [List.cons_append, pack, ih, pack, List.length_cons, BitVec.shiftLeft_xor_distrib, ← BitVec.shiftLeft_add,
      BitVec.xor_assoc]

/-! ### One shift -/

theorem shift_xor (r s : BitVec w) : L.shift (r ^^^ s) = L.shift r ^^^ L.shift s := by
  apply BitVec.eq_of_getLsbD_eq
  intro i inside
  have taken : ∀ b : Bool, (if b then L.taps else 0#w).getLsbD i = (b && L.taps.getLsbD i) := by
    intro b
    cases b <;> simp
  simp only [shift, BitVec.getLsbD_xor, BitVec.getLsbD_ushiftRight, taken, Bool.and_xor_distrib_right]
  simp only [Bool.xor_assoc, Bool.xor_left_comm, Bool.xor_comm]

@[simp] theorem shift_zero : L.shift 0#w = 0#w := by
  simp [shift]

/-- What is shifted in from above is shifted out unchanged. -/
theorem shift_shiftLeft {r : BitVec w} (top : r.msb = false) : L.shift (r <<< 1) = r := by
  apply BitVec.eq_of_getLsbD_eq
  intro i inside
  have low : (r <<< 1).getLsbD 0 = false := by simp
  rw [shift, low]
  by_cases here : 1 + i < w
  · simp [here, BitVec.getLsbD_eq_getElem inside]
  · rw [show i = w - 1 by omega, ← BitVec.msb_eq_getLsbD_last, ← BitVec.msb_eq_getLsbD_last, top]
    simp [BitVec.msb_eq_getLsbD_last, show ¬ 1 + (w - 1) < w by omega]

theorem shift_eq_zero {r : BitVec w} (zero : L.shift r = 0#w) : r = 0#w := by
  have low : r.getLsbD 0 = false := by
    rw [Bool.eq_false_iff]
    intro one
    have top := congrArg BitVec.msb zero
    rw [shift, one, if_pos rfl, BitVec.msb_xor, L.closed] at top
    simp at top
  rw [shift, low] at zero
  apply BitVec.eq_of_getLsbD_eq
  intro i inside
  cases i with
  | zero => simpa using low
  | succ i =>
    have here := congrArg (·.getLsbD i) zero
    simpa [Nat.add_comm] using here

theorem shift_injective : Function.Injective L.shift := by
  intro r s same
  have zero := L.shift_eq_zero (r := r ^^^ s) (by rw [shift_xor, same, BitVec.xor_self])
  exact BitVec.xor_eq_zero_iff.mp zero

theorem iterate_xor (n : Nat) (r s : BitVec w) : L.shift^[n] (r ^^^ s) = L.shift^[n] r ^^^ L.shift^[n] s := by
  induction n generalizing r s with
  | zero => rfl
  | succ n ih =>
    rw [Function.iterate_succ_apply, shift_xor, ih, Function.iterate_succ_apply, Function.iterate_succ_apply]

@[simp] theorem iterate_zero (n : Nat) : L.shift^[n] 0#w = 0#w := by
  induction n with
  | zero => rfl
  | succ n ih => rw [Function.iterate_succ_apply, shift_zero, ih]

/-- What enters from above by `n` places has arrived after `n` shifts. -/
theorem iterate_shiftLeft (n : Nat) {r : BitVec w} (high : ∀ i, w - n ≤ i → r.getLsbD i = false) :
    L.shift^[n] (r <<< n) = r := by
  induction n with
  | zero => simp
  | succ n ih =>
    rw [Function.iterate_succ_apply, BitVec.shiftLeft_add, shift_shiftLeft]
    · exact ih fun i above => high i (by omega)
    · rw [BitVec.msb_eq_getLsbD_last, BitVec.getLsbD_shiftLeft, high _ (by omega)]
      simp

/-! ### Runs -/

@[simp] theorem run_nil (r : BitVec w) : L.run r [] = r := rfl

theorem run_cons (r : BitVec w) (b : Bool) (bits : List Bool) : L.run r (b :: bits) = L.run (L.feed r b) bits := rfl

theorem run_append (r : BitVec w) (a b : List Bool) : L.run r (a ++ b) = L.run (L.run r a) b := List.foldl_append

theorem run_injective (bits : List Bool) : Function.Injective fun r => L.run r bits := by
  induction bits with
  | nil => exact fun _ _ same => same
  | cons b bits ih => exact fun r s same => (BitVec.xor_left_inj _).mp (L.shift_injective (ih same))

/-- Running over no more bits than the register has is to put them in and to shift. -/
theorem run_eq_shift {bits : List Bool} (fits : bits.length ≤ w) (r : BitVec w) :
    L.run r bits = L.shift^[bits.length] (r ^^^ pack bits) := by
  induction bits generalizing r with
  | nil => simp [pack]
  | cons b bits ih =>
    have top : (pack bits : BitVec w).msb = false := by
      rw [List.length_cons] at fits
      rw [BitVec.msb_eq_getLsbD_last, getLsbD_pack, List.getD_eq_default bits false (by omega)]
      simp
    rw [run_cons, ih (Nat.le_of_succ_le fits), feed, List.length_cons, Function.iterate_succ_apply, pack,
      ← BitVec.xor_assoc, L.shift_xor (r ^^^ bit b), L.shift_shiftLeft top]

/-- Two messages that differ, and only in a window of `n` bits. -/
def DifferWithin (n : Nat) (u v : List Bool) : Prop :=
  ∃ pre a b post, u = pre ++ a ++ post ∧ v = pre ++ b ++ post ∧ a.length = b.length ∧ a.length ≤ n ∧ a ≠ b

theorem DifferWithin.length {n : Nat} {u v : List Bool} (differ : DifferWithin n u v) : u.length = v.length := by
  obtain ⟨pre, a, b, post, rfl, rfl, same, -, -⟩ := differ
  simp only [List.length_append, same]

theorem DifferWithin.mono {n m : Nat} {u v : List Bool} (differ : DifferWithin n u v) (wider : n ≤ m) :
    DifferWithin m u v := by
  obtain ⟨pre, a, b, post, left, right, same, fits, other⟩ := differ
  exact ⟨pre, a, b, post, left, right, same, Nat.le_trans fits wider, other⟩

/-- The window of two messages lies before their ends, or in what is cut off. -/
theorem DifferWithin.take {n : Nat} {u v : List Bool} (differ : DifferWithin n u v) (k : Nat)
    (front : u.take k ≠ v.take k) : DifferWithin n (u.take k) (v.take k) := by
  obtain ⟨pre, a, b, post, rfl, rfl, same, fits, -⟩ := differ
  simp only [List.take_append, List.length_append, ← same] at front ⊢
  refine ⟨_, _, _, _, rfl, rfl, ?_, ?_, fun equal => front (by rw [equal])⟩
  · simp only [List.length_take, same]
  · rw [List.length_take]
    omega

/-- **A burst is seen.** Messages that differ only in a window no wider than the register leave it
in different states. -/
theorem run_burst {u v : List Bool} (differ : DifferWithin w u v) (r : BitVec w) : L.run r u ≠ L.run r v := by
  obtain ⟨pre, a, b, post, rfl, rfl, same, fits, other⟩ := differ
  rw [run_append, run_append, run_append, run_append]
  intro ends
  have window : L.run (L.run r pre) a = L.run (L.run r pre) b := L.run_injective post ends
  rw [L.run_eq_shift fits, L.run_eq_shift (same ▸ fits : b.length ≤ w), ← same] at window
  have packed := L.shift_injective.iterate a.length window
  exact other (pack_inj same fits ((BitVec.xor_right_inj _).mp packed))

/-- A message followed by the register itself leaves zero, and no other ending does. -/
theorem run_eq_zero {check : List Bool} (whole : check.length = w) (r : BitVec w) :
    L.run r check = 0#w ↔ pack check = r := by
  rw [run_eq_shift L (Nat.le_of_eq whole)]
  constructor
  · intro zero
    rw [← L.iterate_zero check.length] at zero
    exact (BitVec.xor_eq_zero_iff.mp (L.shift_injective.iterate _ zero)).symm
  · intro packed
    rw [packed, BitVec.xor_self]
    exact L.iterate_zero _

/-! ### Single bits -/

theorem run_xor {a b : List Bool} (same : a.length = b.length) (r s : BitVec w) :
    L.run (r ^^^ s) (List.zipWith xor a b) = L.run r a ^^^ L.run s b := by
  induction a generalizing b r s with
  | nil => cases b with | nil => rfl | cons y b => cases same
  | cons x a ih =>
    cases b with
    | nil => cases same
    | cons y b =>
      have one : L.feed (r ^^^ s) (x ^^ y) = L.feed r x ^^^ L.feed s y := by
        rw [feed, feed, feed, bit_xor, ← shift_xor, BitVec.xor_assoc, BitVec.xor_assoc, ← BitVec.xor_assoc s,
          BitVec.xor_comm s, BitVec.xor_assoc (bit x)]
      rw [List.zipWith_cons_cons, run_cons, one, ih (Nat.succ.inj same), run_cons, run_cons]

theorem run_replicate (n : Nat) (r : BitVec w) : L.run r (List.replicate n false) = L.shift^[n] r := by
  induction n generalizing r with
  | zero => rfl
  | succ n ih => rw [List.replicate_succ, run_cons, ih, feed, bit_false, BitVec.xor_zero, Function.iterate_succ_apply]

/-- The parity of the bits below `n`. -/
def parityTo (r : BitVec w) : Nat → Bool
  | 0 => false
  | n + 1 => r.getLsbD n ^^ parityTo r n

def parity (r : BitVec w) : Bool := parityTo r w

theorem parityTo_xor (r s : BitVec w) (n : Nat) : parityTo (r ^^^ s) n = (parityTo r n ^^ parityTo s n) := by
  induction n with
  | zero => rfl
  | succ n ih =>
    simp only [parityTo, BitVec.getLsbD_xor, ih, Bool.xor_assoc]
    simp only [Bool.xor_left_comm]

theorem parityTo_ushiftRight (r : BitVec w) (n : Nat) : parityTo r (n + 1) = (parityTo (r >>> 1) n ^^ r.getLsbD 0) := by
  induction n with
  | zero => simp [parityTo]
  | succ n ih => rw [parityTo, ih, parityTo, BitVec.getLsbD_ushiftRight, Nat.add_comm 1 n, Bool.xor_assoc]

theorem width_pos (L : Lfsr w) : 0 < w := by
  apply Nat.pos_of_ne_zero
  intro none
  have closed := L.closed
  rw [BitVec.msb_eq_getLsbD_last, BitVec.getLsbD_of_ge _ _ (by omega)] at closed
  cases closed

theorem parity_bit (b : Bool) (some_ : 0 < w) : parity (bit b : BitVec w) = b := by
  have low : ∀ n, parityTo (bit b : BitVec w) (n + 1) = b := by
    intro n
    induction n with
    | zero =>
      rw [parityTo, getLsbD_bit, parityTo]
      simp [some_]
    | succ n ih =>
      rw [parityTo, ih, getLsbD_bit]
      simp
  have last := low (w - 1)
  rwa [Nat.sub_add_cancel some_] at last

section Parity

variable {L} (odd : parity L.taps = true)
include odd

theorem parity_shift (r : BitVec w) : parity (L.shift r) = parity r := by
  have all : parity r = (parityTo (r >>> 1) w ^^ r.getLsbD 0) := by
    rw [← parityTo_ushiftRight, parityTo, BitVec.getLsbD_of_ge _ _ (Nat.le_refl w), Bool.false_xor, parity]
  rw [all, shift, parity, parityTo_xor]
  cases r.getLsbD 0 with
  | false =>
    have none := parityTo_xor 0#w 0#w w
    rw [BitVec.xor_self, Bool.xor_self] at none
    exact congrArg (parityTo (r >>> 1) w ^^ ·) none
  | true => exact congrArg (parityTo (r >>> 1) w ^^ ·) odd

/-- With an odd number of taps the register keeps the parity of the message. -/
theorem parity_run (r : BitVec w) (bits : List Bool) :
    parity (L.run r bits) = (parity r ^^ decide (bits.count true % 2 = 1)) := by
  induction bits generalizing r with
  | nil => simp
  | cons b bits ih =>
    have one : parity (L.feed r b) = (parity r ^^ b) := by
      rw [feed, parity_shift odd, parity, parityTo_xor]
      exact congrArg (parity r ^^ ·) (parity_bit b L.width_pos)
    rw [run_cons, ih, one]
    cases b with
    | false => simp
    | true =>
      rw [List.count_cons_self, Bool.xor_assoc]
      congr 1
      rcases Nat.mod_two_eq_zero_or_one (bits.count true) with half | half <;>
        simp [Nat.add_mod, half]

end Parity

/-- The taps do not come around within `n` further shifts of `r`. -/
def apart : Nat → BitVec w → Bool
  | 0, _ => true
  | n + 1, r => r != L.taps && apart n (L.shift r)

theorem iterate_ne_taps {n : Nat} {r : BitVec w} (apart : L.apart n r = true) {k : Nat} (inside : k < n) :
    L.shift^[k] r ≠ L.taps := by
  induction n generalizing r k with
  | zero => exact absurd inside (Nat.not_lt_zero _)
  | succ n ih =>
    rw [Lfsr.apart, Bool.and_eq_true] at apart
    cases k with
    | zero => exact bne_iff_ne.mp apart.1
    | succ k => exact ih apart.2 (Nat.lt_of_succ_lt_succ inside)

/-- A message with a one in it, up to the first one. -/
theorem split_true {e : List Bool} (some_ : 0 < e.count true) :
    ∃ n rest, e = List.replicate n false ++ true :: rest ∧ e.count true = rest.count true + 1 := by
  induction e with
  | nil => cases some_
  | cons b e ih =>
    cases b with
    | true => exact ⟨0, e, rfl, by simp⟩
    | false =>
      rw [List.count_cons_of_ne (by decide)] at some_ ⊢
      obtain ⟨n, rest, split, count⟩ := ih some_
      exact ⟨n + 1, rest, by rw [split]; rfl, count⟩

theorem eq_replicate_of_count {e : List Bool} (none : e.count true = 0) : e = List.replicate e.length false := by
  rw [List.eq_replicate_iff]
  refine ⟨rfl, fun b member => ?_⟩
  cases b with
  | false => rfl
  | true => exact absurd member (List.count_eq_zero.mp none)

theorem feed_zero_true : L.feed 0#w true = L.taps := by
  have low : (bit true : BitVec w).getLsbD 0 = true := by
    rw [getLsbD_bit]
    simp [L.width_pos]
  have rest : (bit true : BitVec w) >>> 1 = 0#w := by
    apply BitVec.eq_of_getLsbD_eq
    intro i inside
    rw [BitVec.getLsbD_ushiftRight, getLsbD_bit]
    simp
  rw [feed, BitVec.zero_xor, shift, low, if_pos rfl, rest, BitVec.zero_xor]

/-- How many bits of two messages differ. -/
def flips (a b : List Bool) : Nat := (List.zipWith xor a b).count true

theorem flips_pos {a b : List Bool} (same : a.length = b.length) (differ : a ≠ b) : 0 < flips a b := by
  rw [flips, List.count_pos_iff]
  induction a generalizing b with
  | nil => exact absurd (List.length_eq_zero_iff.mp same.symm).symm differ
  | cons x a ih =>
    cases b with
    | nil => cases same
    | cons y b =>
      rw [List.zipWith_cons_cons]
      by_cases head : x = y
      · have tail : a ≠ b := fun equal => differ (by rw [head, equal])
        exact List.mem_cons_of_mem _ (ih (Nat.succ.inj same) tail)
      · rw [show (x ^^ y) = true by cases x <;> cases y <;> simp_all]
        exact List.mem_cons_self

theorem flips_take_le (a b : List Bool) (k : Nat) : flips (a.take k) (b.take k) ≤ flips a b := by
  rw [flips, ← List.take_zipWith]
  exact (List.take_sublist k _).count_le true

/-- **One to three wrong bits are seen**, with an odd number of taps that do not come around within
the message. -/
theorem run_flips (odd : parity L.taps = true) {n : Nat} (apart : L.apart n (L.shift L.taps) = true)
    {a b : List Bool} (same : a.length = b.length) (fits : a.length ≤ n) (some_ : 0 < flips a b)
    (few : flips a b ≤ 3) (r : BitVec w) : L.run r a ≠ L.run r b := by
  intro ends
  rw [flips] at some_ few
  have length : (List.zipWith xor a b).length = a.length := by rw [List.length_zipWith, same, Nat.min_self]
  have zero : L.run 0#w (List.zipWith xor a b) = 0#w := by
    rw [← BitVec.xor_self (x := r), run_xor L same, ends, BitVec.xor_self, BitVec.xor_self]
  generalize List.zipWith xor a b = e at length zero some_ few
  have even : ¬ e.count true % 2 = 1 := by
    intro one
    have kept := parity_run odd 0#w e
    rw [zero, decide_eq_true one, Bool.xor_true] at kept
    exact (Bool.eq_not_self _).mp kept
  obtain ⟨n, rest, rfl, count⟩ := split_true some_
  obtain ⟨k, rest', rfl, count'⟩ := split_true (e := rest) (by omega)
  rw [eq_replicate_of_count (e := rest') (by omega)] at zero
  rw [run_append, run_replicate, iterate_zero, run_cons, feed_zero_true, run_append, run_replicate, run_cons,
    run_replicate, ← L.iterate_zero rest'.length] at zero
  have met : L.feed (L.shift^[k] L.taps) true = L.feed 0#w true ^^^ L.shift (L.shift^[k] L.taps) := by
    rw [feed, feed, ← shift_xor, BitVec.zero_xor, BitVec.xor_comm]
  have round := L.shift_injective.iterate _ zero
  rw [met, feed_zero_true, BitVec.xor_eq_zero_iff] at round
  simp only [List.length_append, List.length_replicate, List.length_cons] at length
  apply iterate_ne_taps L apart (k := k) (by omega)
  rw [← Function.iterate_succ_apply, Function.iterate_succ_apply']
  exact round.symm

end Lfsr

end FloridUsb.Lib
