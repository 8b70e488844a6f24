import FloridUsb.Lib.Bytes
import Mathlib.Data.List.Nodup
import Mathlib.Data.List.Pairwise
import Mathlib.Algebra.GroupWithZero.Nat

/-!
# The memory pool

`PacketInfoCollector.hpp`: where each packet type of a `Deserializer` lies in its pool. The slots
are aligned, lie in the pool one behind the other and do not overlap (`slots_apart`), as long as
the sizes do not overflow `size_t`. The two maps from commands find the slot and the number of the
same type (`indices`).
-/

namespace FloridUsb.Rpl
set_option autoImplicit false

/-- What the pool reads of a packet type: `alignof(T)` is a power of two. -/
structure Pooled where
  cmd : UInt16
  sizeof : Nat
  alignLog : Nat
  size_pos : 0 < sizeof

def Pooled.alignof (T : Pooled) : Nat := 2 ^ T.alignLog

-- The width of `size_t`.
variable {sizeBits : Nat}

def alignUp (offset alignment : BitVec sizeBits) : BitVec sizeBits := (offset + alignment - 1) &&& ~~~(alignment - 1)

/-- `calculate_offsets`: the offset of each type, and the end of the last. -/
def calculateOffsets : List Pooled → BitVec sizeBits → List (BitVec sizeBits) × BitVec sizeBits
  | [], current => ([], current)
  | T :: rest, current =>
    let offset := alignUp current (.ofNat sizeBits T.alignof)
    let (offsets, total) := calculateOffsets rest (offset + .ofNat sizeBits T.sizeof)
    (offset :: offsets, total)

/-- The template arguments of a `Deserializer`, of which a compile-time map by command exists. -/
structure PooledTypes (sizeBits : Nat) where
  types : List Pooled
  cmd_nodup : (types.map (·.cmd)).Nodup
  size_lt : (types.map fun T => T.sizeof + T.alignof).sum < 2 ^ sizeBits

namespace PooledTypes

variable (Ps : PooledTypes sizeBits)

/-- The type with the number. -/
def type (i : Fin Ps.types.length) : Pooled := Ps.types.get i

def offsets : List (BitVec sizeBits) := (calculateOffsets Ps.types 0).1

def totalSize : Nat := (calculateOffsets Ps.types (0 : BitVec sizeBits)).2.toNat

/-- `cmd_index`: the offset of the slot. -/
def cmdIndex (cmd : UInt16) : Option Nat :=
  ((Ps.types.zip Ps.offsets).find? (·.1.cmd = cmd)).map (·.2.toNat)

/-- `cmd_seq_index`: the number of the type. -/
def cmdSeqIndex (cmd : UInt16) : Option Nat := Ps.types.findIdx? (·.cmd = cmd)

end PooledTypes

/-! ### Alignment -/

/-- A number is what a mask keeps of it and what it clears. -/
theorem toNat_and_not_add_and {w : Nat} (x m : BitVec w) : (x &&& ~~~m).toNat + (x &&& m).toNat = x.toNat := by
  have apart : (x &&& ~~~m) &&& (x &&& m) = 0#w := by
    ext i
    simp
    grind
  rw [← BitVec.toNat_add_of_and_eq_zero apart, BitVec.add_eq_or_of_and_eq_zero _ _ apart]
  congr 1
  ext i
  simp
  grind

theorem alignUp_toNat {offset : BitVec sizeBits} {k : Nat} (small : offset.toNat + 2 ^ k < 2 ^ sizeBits) :
    (alignUp offset (.ofNat sizeBits (2 ^ k))).toNat = (offset.toNat + 2 ^ k - 1) / 2 ^ k * 2 ^ k := by
  have pos : 0 < 2 ^ k := Nat.two_pow_pos k
  have alignment : (BitVec.ofNat sizeBits (2 ^ k)).toNat = 2 ^ k := Nat.mod_eq_of_lt (by omega)
  have one : (1 : BitVec sizeBits).toNat = 1 := by
    show 1 % 2 ^ sizeBits = 1
    exact Nat.mod_eq_of_lt (by omega)
  have mask : (BitVec.ofNat sizeBits (2 ^ k) - 1).toNat = 2 ^ k - 1 := by
    rw [BitVec.toNat_sub, alignment, one, show 2 ^ sizeBits - 1 + 2 ^ k = 2 ^ k - 1 + 2 ^ sizeBits by omega,
      Nat.add_mod_right, Nat.mod_eq_of_lt (by omega)]
  have raised : (offset + .ofNat sizeBits (2 ^ k) - 1).toNat = offset.toNat + 2 ^ k - 1 := by
    rw [BitVec.toNat_sub, BitVec.toNat_add, alignment, one, Nat.mod_eq_of_lt small,
      show 2 ^ sizeBits - 1 + (offset.toNat + 2 ^ k) = offset.toNat + 2 ^ k - 1 + 2 ^ sizeBits by omega,
      Nat.add_mod_right, Nat.mod_eq_of_lt (by omega)]
  have parts := toNat_and_not_add_and (offset + .ofNat sizeBits (2 ^ k) - 1) (.ofNat sizeBits (2 ^ k) - 1)
  rw [BitVec.toNat_and _ (BitVec.ofNat sizeBits (2 ^ k) - 1), mask, Nat.and_two_pow_sub_one_eq_mod, raised] at parts
  have division := Nat.div_add_mod (offset.toNat + 2 ^ k - 1) (2 ^ k)
  rw [Nat.mul_comm] at division
  rw [alignUp]
  omega

/-- The next aligned offset: no further than the alignment away. -/
theorem alignUp_spec {offset : BitVec sizeBits} {T : Pooled} (small : offset.toNat + T.alignof < 2 ^ sizeBits) :
    offset.toNat ≤ (alignUp offset (.ofNat sizeBits T.alignof)).toNat ∧
    (alignUp offset (.ofNat sizeBits T.alignof)).toNat < offset.toNat + T.alignof ∧
    T.alignof ∣ (alignUp offset (.ofNat sizeBits T.alignof)).toNat := by
  have pos : 0 < T.alignof := Nat.two_pow_pos T.alignLog
  rw [show (alignUp offset (.ofNat sizeBits T.alignof)).toNat =
    (offset.toNat + T.alignof - 1) / T.alignof * T.alignof from
    alignUp_toNat small]
  have division := Nat.div_add_mod (offset.toNat + T.alignof - 1) T.alignof
  have rest := Nat.mod_lt (offset.toNat + T.alignof - 1) pos
  rw [Nat.mul_comm] at division
  exact ⟨by omega, by omega, Nat.dvd_mul_left _ _⟩

/-! ### The layout -/

theorem length_calculateOffsets (types : List Pooled) (current : BitVec sizeBits) :
    (calculateOffsets types current).1.length = types.length := by
  induction types generalizing current with
  | nil => rfl
  | cons T rest ih => exact congrArg (· + 1) (ih _)

/-- Each slot lies where its type may lie, after `current` and before the end. -/
structure Placed (current total : Nat) (slot : Pooled × BitVec sizeBits) : Prop where
  aligned : slot.1.alignof ∣ slot.2.toNat
  after : current ≤ slot.2.toNat
  inside : slot.2.toNat + slot.1.sizeof ≤ total

def Before (a b : Pooled × BitVec sizeBits) : Prop := a.2.toNat + a.1.sizeof ≤ b.2.toNat

theorem calculateOffsets_spec {types : List Pooled} {current : BitVec sizeBits}
    (small : current.toNat + (types.map fun T => T.sizeof + T.alignof).sum < 2 ^ sizeBits) :
    current.toNat ≤ (calculateOffsets types current).2.toNat ∧
    (∀ slot ∈ types.zip (calculateOffsets types current).1,
      Placed current.toNat (calculateOffsets types current).2.toNat slot) ∧
    (types.zip (calculateOffsets types current).1).Pairwise Before := by
  induction types generalizing current with
  | nil => exact ⟨Nat.le_refl _, by simp, .nil⟩
  | cons T rest ih =>
    rw [List.map_cons, List.sum_cons] at small
    obtain ⟨reached, near, aligned⟩ := @alignUp_spec _ current T (by omega)
    generalize hoffset : alignUp current (.ofNat sizeBits T.alignof) = offset at reached near aligned
    have next : (offset + .ofNat sizeBits T.sizeof).toNat = offset.toNat + T.sizeof := by
      rw [BitVec.toNat_add, BitVec.toNat_ofNat, Nat.mod_eq_of_lt (a := T.sizeof) (by omega),
        Nat.mod_eq_of_lt (by omega)]
    obtain ⟨grows, placed, apart⟩ := @ih (offset + .ofNat sizeBits T.sizeof) (by omega)
    rw [next] at grows placed
    simp only [calculateOffsets, hoffset]
    refine ⟨by omega, ?_, ?_⟩
    · intro slot member
      cases List.mem_cons.mp member with
      | inl first =>
        subst first
        exact ⟨aligned, reached, grows⟩
      | inr later =>
        obtain ⟨fits, after, inside⟩ := placed slot later
        exact ⟨fits, by omega, inside⟩
    · refine .cons (fun slot member => ?_) apart
      exact (placed slot member).after

namespace PooledTypes

variable {Ps : PooledTypes sizeBits} {cmd : UInt16} {k o : Nat} {T : Pooled}

theorem layout (Ps : PooledTypes sizeBits) :
    (∀ slot ∈ Ps.types.zip Ps.offsets, Placed 0 Ps.totalSize slot) ∧ (Ps.types.zip Ps.offsets).Pairwise Before :=
  (@calculateOffsets_spec _ Ps.types 0 (by simpa using Ps.size_lt)).2

/-- The command of a type tells the type. -/
theorem eq_of_cmd_eq {U : Pooled} (left : T ∈ Ps.types) (right : U ∈ Ps.types) (same : T.cmd = U.cmd) : T = U :=
  List.inj_on_of_nodup_map Ps.cmd_nodup left right same

theorem cmdSeqIndex_spec (found : Ps.cmdSeqIndex cmd = some k) : ∃ T, Ps.types[k]? = some T ∧ T.cmd = cmd := by
  obtain ⟨inside, has, -⟩ := List.findIdx?_eq_some_iff_getElem.mp found
  exact ⟨_, List.getElem?_eq_getElem inside, by simpa using has⟩

theorem cmdIndex_spec (found : Ps.cmdIndex cmd = some o) :
    ∃ slot ∈ Ps.types.zip Ps.offsets, slot.1.cmd = cmd ∧ slot.2.toNat = o := by
  obtain ⟨slot, first, at_⟩ := Option.map_eq_some_iff.mp found
  exact ⟨slot, List.mem_of_find?_eq_some first, by simpa using List.find?_some first, at_⟩

theorem mem_of_slot {slot : Pooled × BitVec sizeBits} (member : slot ∈ Ps.types.zip Ps.offsets) : slot.1 ∈ Ps.types :=
  (List.of_mem_zip (a := slot.1) (b := slot.2) member).1

/-- Where the slot of a type lies. -/
theorem placed (member : T ∈ Ps.types) (found : Ps.cmdIndex T.cmd = some o) :
    T.alignof ∣ o ∧ o + T.sizeof ≤ Ps.totalSize := by
  obtain ⟨slot, here, cmd, rfl⟩ := cmdIndex_spec found
  obtain rfl := eq_of_cmd_eq (mem_of_slot here) member cmd
  have placed := Ps.layout.1 slot here
  exact ⟨placed.aligned, placed.inside⟩

/-- Slots of different types do not overlap. -/
theorem apart {U : Pooled} {p : Nat} (member : T ∈ Ps.types) (other : U ∈ Ps.types) (ne : T.cmd ≠ U.cmd)
    (found : Ps.cmdIndex T.cmd = some o) (foundOther : Ps.cmdIndex U.cmd = some p) :
    o + T.sizeof ≤ p ∨ p + U.sizeof ≤ o := by
  obtain ⟨slot, here, cmd, rfl⟩ := cmdIndex_spec found
  obtain ⟨slot', there, cmd', rfl⟩ := cmdIndex_spec foundOther
  obtain rfl := eq_of_cmd_eq (mem_of_slot here) member cmd
  obtain rfl := eq_of_cmd_eq (mem_of_slot there) other cmd'
  have either : (Ps.types.zip Ps.offsets).Pairwise fun a b => Before a b ∨ Before b a :=
    Ps.layout.2.imp .inl
  have symm : Std.Symm fun a b : Pooled × BitVec sizeBits => Before a b ∨ Before b a := ⟨fun _ _ => Or.symm⟩
  exact either.forall here there fun same => ne (congrArg (·.1.cmd) same)

theorem length_offsets : Ps.offsets.length = Ps.types.length := length_calculateOffsets Ps.types 0

theorem cmdIndex_isSome (member : T ∈ Ps.types) : ∃ o, Ps.cmdIndex T.cmd = some o := by
  obtain ⟨i, inside, rfl⟩ := List.getElem_of_mem member
  have offset : i < Ps.offsets.length := by rwa [length_offsets]
  have slot : (Ps.types[i], Ps.offsets[i]) ∈ Ps.types.zip Ps.offsets := by
    have at_ : i < (Ps.types.zip Ps.offsets).length := by
      rw [List.length_zip]
      omega
    simpa using List.getElem_mem at_
  have some_ : ((Ps.types.zip Ps.offsets).find? (·.1.cmd = Ps.types[i].cmd)).isSome :=
    List.find?_isSome.mpr ⟨_, slot, by simp⟩
  obtain ⟨found, first⟩ := Option.isSome_iff_exists.mp some_
  exact ⟨found.2.toNat, by rw [cmdIndex, first]; rfl⟩

theorem type_mem (i : Fin Ps.types.length) : Ps.type i ∈ Ps.types := List.get_mem _ i

theorem cmdSeqIndex_type (i : Fin Ps.types.length) : Ps.cmdSeqIndex (Ps.type i).cmd = some i.val := by
  rw [cmdSeqIndex, List.findIdx?_eq_some_iff_getElem]
  refine ⟨i.isLt, by simp [type], fun j before => ?_⟩
  simp only [decide_eq_true_eq]
  intro same
  have distinct := List.pairwise_iff_getElem.mp Ps.cmd_nodup j i (by simp; omega) (by simp) before
  simp only [List.getElem_map] at distinct
  exact distinct same

/-- **The layout of the pool.** -/
theorem slots_apart (Ps : PooledTypes sizeBits) (i : Fin Ps.types.length) :
    Ps.cmdSeqIndex (Ps.type i).cmd = some i.val ∧
    ∃ o, Ps.cmdIndex (Ps.type i).cmd = some o ∧ (Ps.type i).alignof ∣ o ∧ o + (Ps.type i).sizeof ≤ Ps.totalSize ∧
      ∀ j, j = i ∨ ∃ p, Ps.cmdIndex (Ps.type j).cmd = some p ∧
        (o + (Ps.type i).sizeof ≤ p ∨ p + (Ps.type j).sizeof ≤ o) := by
  obtain ⟨o, found⟩ := cmdIndex_isSome (type_mem i)
  obtain ⟨aligned, inside⟩ := placed (type_mem i) found
  refine ⟨cmdSeqIndex_type i, o, found, aligned, inside, fun j => ?_⟩
  by_cases same : j = i
  · exact .inl same
  · obtain ⟨p, foundOther⟩ := cmdIndex_isSome (type_mem j)
    refine .inr ⟨p, foundOther, apart (type_mem i) (type_mem j) (fun cmds => same ?_) found foundOther⟩
    have numbers := cmdSeqIndex_type i
    rw [cmds, cmdSeqIndex_type j] at numbers
    exact Fin.ext (Option.some_inj.mp numbers)

end PooledTypes

end FloridUsb.Rpl
