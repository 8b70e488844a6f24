import FloridUsb.Lib.Bytes
import FloridUsb.Lib.Machine
import FloridUsb.Lib.SlidingWindow

/-!
# The ring of seen identifiers

`IdRingBuffer` (`IdRingBuffer.hpp`) of capacity `2 ^ k`, and the deduplication key of a
command and a transaction. The ring starts full of zero keys and each new key overwrites the
oldest, so it accepts exactly the keys that are none of the last `2 ^ k` accepted ones
(`Remembers`). Of the keys that are not zero it is the set of the last `2 ^ k` accepted ones since
it was cleared (`sliding_set`).
-/

namespace FloridUsb.Session
set_option autoImplicit false

open Lib

/-- The ring: as many entries as its capacity, and a place in it to write next. -/
structure IdRingBuffer (T : Type) (k : Nat) where
  ids : List T
  writeIdx : Nat
  length_ids : ids.length = 2 ^ k
  writeIdx_lt : writeIdx < 2 ^ k

namespace IdRingBuffer

variable {T : Type} {k : Nat}

/-- The zero-initialised ring; also its state after `clear`. -/
def init [Inhabited T] (k : Nat) : IdRingBuffer T k where
  ids := List.replicate (2 ^ k) default
  writeIdx := 0
  length_ids := List.length_replicate
  writeIdx_lt := Nat.two_pow_pos k

/-- `(write_idx + 1) & (Capacity - 1)`. -/
def nextIdx (r : IdRingBuffer T k) : Nat := (r.writeIdx + 1) &&& (2 ^ k - 1)

/-- `test_and_insert`: true if the key is in the ring, else it is written. -/
def testAndInsert [DecidableEq T] (r : IdRingBuffer T k) (id : T) : IdRingBuffer T k × Bool :=
  if id ∈ r.ids then (r, true)
  else
    ({ ids := r.ids.set r.writeIdx id
       writeIdx := r.nextIdx
       length_ids := by rw [List.length_set, r.length_ids]
       writeIdx_lt := by
         rw [nextIdx, Nat.and_two_pow_sub_one_eq_mod]
         exact Nat.mod_lt _ (Nat.two_pow_pos k) }, false)

def clear [Inhabited T] (_ : IdRingBuffer T k) : IdRingBuffer T k where
  ids := List.replicate (2 ^ k) default
  writeIdx := 0
  length_ids := List.length_replicate
  writeIdx_lt := Nat.two_pow_pos k

/-- The keys, oldest first. -/
def queue (r : IdRingBuffer T k) : List T := r.ids.drop r.writeIdx ++ r.ids.take r.writeIdx

theorem mem_queue {r : IdRingBuffer T k} {id : T} : id ∈ r.queue ↔ id ∈ r.ids := by
  rw [queue, List.mem_append, or_comm, ← List.mem_append, List.take_append_drop]

/-- A key written pushes the oldest one out. -/
theorem queue_insert [DecidableEq T] {r : IdRingBuffer T k} {id : T} (new : id ∉ r.ids) :
    (r.testAndInsert id).1.queue = r.queue.tail ++ [id] := by
  have place := r.writeIdx_lt
  have size := r.length_ids
  rw [testAndInsert, if_neg new]
  show (r.ids.set r.writeIdx id).drop r.nextIdx ++ (r.ids.set r.writeIdx id).take r.nextIdx = _
  have written : r.ids.set r.writeIdx id = r.ids.take r.writeIdx ++ id :: r.ids.drop (r.writeIdx + 1) := by
    rw [List.set_eq_take_append_cons_drop, if_pos (by omega)]
  have oldest : (r.ids.drop r.writeIdx).tail = r.ids.drop (r.writeIdx + 1) := List.tail_drop
  have before : (r.ids.take r.writeIdx).length = r.writeIdx := by
    rw [List.length_take]
    omega
  have some_ : r.ids.drop r.writeIdx ≠ [] := by
    intro none
    have := List.drop_eq_nil_iff.mp none
    omega
  rw [queue, List.tail_append_of_ne_nil some_, oldest, nextIdx, Nat.and_two_pow_sub_one_eq_mod, written]
  by_cases last : r.writeIdx + 1 = 2 ^ k
  · have rest : r.ids.drop (r.writeIdx + 1) = [] := List.drop_eq_nil_of_le (by omega)
    rw [last, Nat.mod_self, ← last, rest, List.drop_zero, List.take_zero, List.append_nil, List.nil_append]
  · have none : (r.ids.take r.writeIdx).drop (r.writeIdx + 1) = [] := List.drop_eq_nil_of_le (by omega)
    have all : (r.ids.take r.writeIdx).take (r.writeIdx + 1) = r.ids.take r.writeIdx :=
      List.take_of_length_le (by omega)
    rw [Nat.mod_eq_of_lt (by omega), List.drop_append, List.take_append, before, none, all,
      show r.writeIdx + 1 - r.writeIdx = 1 by omega, List.nil_append, List.append_assoc]
    rfl

/-- The ring holds the last `2 ^ k` keys of zero keys followed by the accepted ones. -/
structure Remembers [Inhabited T] (r : IdRingBuffer T k) (accepted : List T) : Prop where
  queue_eq : r.queue = recent (2 ^ k) (List.replicate (2 ^ k) default ++ accepted)
  dedup : Deduplicated (2 ^ k) accepted

section Remembers

variable {r : IdRingBuffer T k} {accepted : List T} {id : T}

theorem Remembers.init [Inhabited T] (k : Nat) : Remembers (init k : IdRingBuffer T k) [] where
  queue_eq := by
    rw [List.append_nil, recent, List.length_replicate, Nat.sub_self, List.drop_zero]
    exact List.append_nil _
  dedup := .nil _

/-- A key that is seen changes nothing. -/
theorem testAndInsert_seen [DecidableEq T] (seen : id ∈ r.ids) : r.testAndInsert id = (r, true) := if_pos seen

theorem testAndInsert_new [DecidableEq T] (new : id ∉ r.ids) :
    r.testAndInsert id = ((r.testAndInsert id).1, false) := by
  rw [testAndInsert, if_neg new]

theorem testAndInsert_eq_true [DecidableEq T] : (r.testAndInsert id).2 = true ↔ id ∈ r.ids := by
  unfold testAndInsert
  split <;> simp_all

/-- A key accepted as new is none of the last `2 ^ k` accepted ones, and is remembered. -/
theorem Remembers.insert [Inhabited T] [DecidableEq T] (h : Remembers r accepted) (new : id ∉ r.ids) :
    (r.testAndInsert id).2 = false ∧ Remembers (r.testAndInsert id).1 (accepted ++ [id]) := by
  refine ⟨by rw [testAndInsert, if_neg new], ?_, ?_⟩
  · rw [queue_insert new, h.queue_eq, ← List.append_assoc,
      recent_snoc _ (by rw [List.length_append, List.length_replicate]; omega) (Nat.two_pow_pos k)]
  · apply h.dedup.snoc
    intro member
    apply new
    rw [← mem_queue, h.queue_eq]
    exact mem_recent_append_left member

/-- A key that is not zero is in the ring if it is one of the last `2 ^ k` accepted ones. -/
theorem Remembers.mem_iff [Inhabited T] (h : Remembers r accepted) (nonzero : id ≠ default) :
    id ∈ r.ids ↔ id ∈ recent (2 ^ k) accepted := by
  rw [← mem_queue, h.queue_eq]
  constructor
  · intro member
    rcases mem_recent_of_append member with zero | kept
    · exact absurd (List.eq_of_mem_replicate zero) nonzero
    · exact kept
  · exact mem_recent_append_left

/-- A key that is not among all the accepted ones is new, unless it is the zero key. -/
theorem Remembers.fresh [Inhabited T] (h : Remembers r accepted) (fresh : id ∉ accepted)
    (nonzero : id ≠ default) : id ∉ r.ids := by
  rw [h.mem_iff nonzero]
  exact fun member => fresh (List.mem_of_mem_drop member)

/-- The keys in the ring that are not zero are pairwise distinct. -/
theorem Remembers.distinct [Inhabited T] [DecidableEq T] (h : Remembers r accepted) :
    (r.ids.filter fun id => decide (id ≠ default)).Nodup := by
  have order : r.queue.Perm r.ids := by
    have turned : r.queue.Perm (r.ids.take r.writeIdx ++ r.ids.drop r.writeIdx) := List.perm_append_comm
    rwa [List.take_append_drop] at turned
  have zeros : ∀ n, ((List.replicate (2 ^ k) default).drop n).filter (fun id : T => decide (id ≠ default)) = [] := by
    intro n
    rw [List.filter_eq_nil_iff]
    intro id member
    have zero := List.eq_of_mem_replicate (List.mem_of_mem_drop member)
    simp [zero]
  rw [← (order.filter _).nodup_iff, h.queue_eq, recent_append_eq, List.filter_append, zeros, List.nil_append]
  exact h.dedup.recent_nodup.filter _

end Remembers

/-! ### Runs -/

section Runs

inductive RingOp (T : Type) where
  | testAndInsert (id : T)
  | clear

inductive RingEvent (T : Type) where
  /-- `test_and_insert` has returned. -/
  | tested (id : T) (seen : Bool)
  | cleared
deriving DecidableEq

def remember (accepted : List T) : RingEvent T → List T
  | .tested id false => accepted ++ [id]
  | .tested _ true => accepted
  | .cleared => []

/-- The keys for which `test_and_insert` has returned false since the last `clear`, oldest first. -/
def acceptedSinceClear (log : List (RingEvent T)) : List T := log.foldl remember []

theorem acceptedSinceClear_snoc (log : List (RingEvent T)) (e : RingEvent T) :
    acceptedSinceClear (log ++ [e]) = remember (acceptedSinceClear log) e := by
  rw [acceptedSinceClear, List.foldl_append]
  rfl

variable [Inhabited T] [DecidableEq T]

def step (r : IdRingBuffer T k) : RingOp T → IdRingBuffer T k × List (RingEvent T)
  | .testAndInsert id => ((r.testAndInsert id).1, [.tested id (r.testAndInsert id).2])
  | .clear => (r.clear, [.cleared])

/-- A ring as a machine. -/
def ring (T : Type) (k : Nat) [Inhabited T] [DecidableEq T] : Machine (IdRingBuffer T k) (RingOp T) (RingEvent T) where
  step := step

theorem Remembers.step {r : IdRingBuffer T k} {log : List (RingEvent T)} (h : Remembers r (acceptedSinceClear log))
    (o : RingOp T) :
    Remembers ((ring T k).step r o).1 (acceptedSinceClear (log ++ ((ring T k).step r o).2)) := by
  cases o with
  | clear =>
    show Remembers r.clear (acceptedSinceClear (log ++ [.cleared]))
    rw [acceptedSinceClear_snoc]
    exact .init k
  | testAndInsert id =>
    show Remembers (r.testAndInsert id).1 (acceptedSinceClear (log ++ [.tested id (r.testAndInsert id).2]))
    rw [acceptedSinceClear_snoc]
    by_cases seen : id ∈ r.ids
    · rw [testAndInsert_seen seen]
      exact h
    · obtain ⟨accepted, remembers⟩ := h.insert seen
      rw [accepted]
      exact remembers

theorem Remembers.run (ops : List (RingOp T)) :
    Remembers ((ring T k).exec (.init k) ops) (acceptedSinceClear ((ring T k).trace (.init k) ops)) :=
  (ring T k).run_invariant_always (I := fun r log => Remembers r (acceptedSinceClear log)) (.init k)
    (fun _ _ o h => h.step o) ops

/-- **The ring is a sliding set.** After any calls of `test_and_insert` and `clear`, a key that is
not zero is found if and only if it is one of the last `2 ^ k` accepted since the last `clear`; a
key that is found changes nothing; and the keys in the ring that are not zero are pairwise
distinct. -/
theorem sliding_set (k : Nat) (ops : List (RingOp T)) :
    let r := (ring T k).exec (.init k) ops
    let accepted := acceptedSinceClear ((ring T k).trace (.init k) ops)
    (∀ id, id ≠ default → ((r.testAndInsert id).2 = true ↔ id ∈ recent (2 ^ k) accepted)) ∧
    (∀ id, (r.testAndInsert id).2 = true → (r.testAndInsert id).1 = r) ∧
    (r.ids.filter fun id => decide (id ≠ default)).Nodup := by
  intro r accepted
  have remembers : Remembers r accepted := .run ops
  refine ⟨fun id nonzero => ?_, fun id seen => ?_, remembers.distinct⟩
  · rw [testAndInsert_eq_true, remembers.mem_iff nonzero]
  · rw [testAndInsert_seen (testAndInsert_eq_true.mp seen)]

end Runs

end IdRingBuffer

/-- `DedupKey`. -/
abbrev DedupKey := UInt64

/-- `compose_dedup_key`. -/
def composeDedupKey (cmdId : UInt16) (txId : UInt32) : DedupKey :=
  (cmdId.toUInt64 <<< 32) ||| txId.toUInt64

/-- `DedupRingBuffer`, with room for 64 keys. -/
abbrev DedupRingBuffer := IdRingBuffer DedupKey 6

theorem toNat_composeDedupKey (cmdId : UInt16) (txId : UInt32) :
    (composeDedupKey cmdId txId).toNat = txId.toNat + cmdId.toNat * 2 ^ 32 := by
  have hc := cmdId.toNat_lt
  have fits : cmdId.toNat <<< 32 % 2 ^ 64 = cmdId.toNat <<< 32 := by
    apply Nat.mod_eq_of_lt
    rw [Nat.shiftLeft_eq]
    omega
  have value : (composeDedupKey cmdId txId).toNat = cmdId.toNat <<< 32 % 2 ^ 64 ||| txId.toNat := by
    simp [composeDedupKey]
  rw [value, fits, Nat.or_comm, or_shiftLeft 32 _ txId.toNat_lt]

/-- The key determines the command and the transaction. -/
theorem composeDedupKey_inj {c d : UInt16} {t u : UInt32} (h : composeDedupKey c t = composeDedupKey d u) :
    c = d ∧ t = u := by
  have value := congrArg UInt64.toNat h
  have ht := t.toNat_lt
  have hu := u.toNat_lt
  rw [toNat_composeDedupKey, toNat_composeDedupKey] at value
  constructor
  · apply UInt16.toNat_inj.mp
    omega
  · apply UInt32.toNat_inj.mp
    omega

/-- The key of a transaction that is not 0 is not the zero key of an empty ring. -/
theorem composeDedupKey_ne_default (c : UInt16) {t : UInt32} (nonzero : t ≠ 0) : composeDedupKey c t ≠ default := by
  intro h
  have value := congrArg UInt64.toNat h
  rw [toNat_composeDedupKey] at value
  have zero : t.toNat = 0 := by
    have : (default : UInt64).toNat = 0 := rfl
    omega
  exact nonzero (UInt32.toNat_inj.mp zero)

end FloridUsb.Session
