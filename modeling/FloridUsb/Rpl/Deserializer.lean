import FloridUsb.Lib.SeqLock
import FloridUsb.Lib.Simulation
import FloridUsb.Rpl.Pool

/-!
# The deserializer

`RPL/Deserializer.hpp`: the parser's thread writes payloads into the pool while other threads get
packets out of it. Each slot has a version that `write_segmented` counts up before and after it
copies, and `get` copies the slot until it has seen one even version twice. The calls run byte by
byte, interleaved in any way and in any order of the bytes.

For each slot and each thread that gets, the pool is a sequence lock (`pool_simulates_slot`),
whatever is written to other slots and read by other threads. So no `get` returns a torn packet
(`get_whole`). `write_segmented` does not check that the payload fits its slot; that is up to
whoever calls it.
-/

namespace FloridUsb.Rpl
set_option autoImplicit false

open Lib

variable {sizeBits : Nat}

namespace PooledTypes

variable (Ps : PooledTypes sizeBits) (i : Fin Ps.types.length)

/-- `type_index<T>()`, where `T` is the type with the number. -/
def typeIndex : Nat := (Ps.cmdIndex (Ps.type i).cmd).getD 0

/-- `type_seq_index<T>()`. -/
def typeSeqIndex : Nat := (Ps.cmdSeqIndex (Ps.type i).cmd).getD 0

end PooledTypes

/-- A call of `write` or `write_segmented` that has counted the version up. -/
structure PoolWrite where
  cmd : UInt16
  byteOffset : Nat
  seqIdx : Nat
  data : List UInt8
  todo : List Nat

/-- Where a thread is in `get`. -/
inductive PoolRead (Ps : PooledTypes sizeBits)
  | idle
  | looking (i : Fin Ps.types.length)
  | copying (i : Fin Ps.types.length) (v1 : UInt32) (result : List (Option UInt8)) (todo : List Nat)

structure Deserializer (Ps : PooledTypes sizeBits) where
  buffer : List UInt8
  versions : List UInt32
  writer : Option PoolWrite := none
  readers : Nat → PoolRead Ps := fun _ => .idle

/-- The steps of the calls. A thread is a number. -/
inductive PoolOp (Ps : PooledTypes sizeBits)
  /-- `write_segmented` up to the first change of the version; `write` has one segment. -/
  | write (cmd : UInt16) (s1 s2 : List UInt8)
  | store (j : Nat)
  | finish
  | get (thread : Nat) (i : Fin Ps.types.length)
  | look (thread : Nat)
  | load (thread : Nat) (j : Nat)
  | check (thread : Nat)

inductive PoolEvent (Ps : PooledTypes sizeBits)
  | began (cmd : UInt16)
  | wrote (cmd : UInt16) (data : List UInt8)
  | looked (thread : Nat) (i : Fin Ps.types.length)
  | again (thread : Nat) (i : Fin Ps.types.length)
  | returned (thread : Nat) (i : Fin Ps.types.length) (result : List (Option UInt8))
deriving DecidableEq

namespace Deserializer

variable {Ps : PooledTypes sizeBits}

/-- `Deserializer()`: the pool and the versions are zero. -/
def init (Ps : PooledTypes sizeBits) : Deserializer Ps where
  buffer := List.replicate Ps.totalSize 0
  versions := List.replicate Ps.types.length 0

/-- `version<T>()`. -/
def version (s : Deserializer Ps) (i : Fin Ps.types.length) : UInt32 := s.versions.getD (Ps.typeSeqIndex i) 0

def setReader (s : Deserializer Ps) (thread : Nat) (r : PoolRead Ps) : Deserializer Ps :=
  { s with readers := fun t => if t = thread then r else s.readers t }

def step (s : Deserializer Ps) : PoolOp Ps → Deserializer Ps × List (PoolEvent Ps)
  | .write cmd s1 s2 =>
    match s.writer, Ps.cmdIndex cmd, Ps.cmdSeqIndex cmd with
    | none, some byteOffset, some seqIdx =>
      ({ s with versions := s.versions.modify seqIdx (· + 1),
                writer := some ⟨cmd, byteOffset, seqIdx, s1 ++ s2, List.range (s1 ++ s2).length⟩ }, [.began cmd])
    | _, _, _ => (s, [])
  | .store j =>
    match s.writer with
    | none => (s, [])
    | some w =>
      match w.data[j]? with
      | none => (s, [])
      | some byte =>
        if j ∈ w.todo then
          ({ s with buffer := s.buffer.set (w.byteOffset + j) byte,
                    writer := some { w with todo := w.todo.filter (· ≠ j) } }, [])
        else (s, [])
  | .finish =>
    match s.writer with
    | none => (s, [])
    | some w =>
      if w.todo = [] then
        ({ s with versions := s.versions.modify w.seqIdx (· + 1), writer := none }, [.wrote w.cmd w.data])
      else (s, [])
  | .get thread i =>
    match s.readers thread with
    | .idle => (s.setReader thread (.looking i), [])
    | _ => (s, [])
  | .look thread =>
    match s.readers thread with
    | .looking i =>
      let size := (Ps.type i).sizeof
      (s.setReader thread (.copying i (s.version i) (List.replicate size none) (List.range size)), [.looked thread i])
    | _ => (s, [])
  | .load thread j =>
    match s.readers thread with
    | .copying i v1 result todo =>
      if j < (Ps.type i).sizeof then
        (s.setReader thread
          (.copying i v1 (result.set j s.buffer[Ps.typeIndex i + j]?) (todo.filter (· ≠ j))), [])
      else (s, [])
    | _ => (s, [])
  | .check thread =>
    match s.readers thread with
    | .copying i v1 result [] =>
      let v2 := s.version i
      if v1 ≠ v2 ∨ v1 &&& 1 ≠ 0 then (s.setReader thread (.looking i), [.again thread i])
      else (s.setReader thread .idle, [.returned thread i result])
    | _ => (s, [])

end Deserializer

/-- The interleavings of the parser's thread and the threads that get. -/
def pool (Ps : PooledTypes sizeBits) : Machine (Deserializer Ps) (PoolOp Ps) (PoolEvent Ps) where
  step := Deserializer.step

/-- The payload is not longer than the packet with its command. -/
def PoolOp.Fits {Ps : PooledTypes sizeBits} : PoolOp Ps → Prop
  | .write cmd s1 s2 => ∀ T ∈ Ps.types, T.cmd = cmd → (s1 ++ s2).length ≤ T.sizeof
  | _ => True

instance (Ps : PooledTypes sizeBits) : DecidablePred (@PoolOp.Fits _ Ps)
  | .write cmd s1 s2 => inferInstanceAs (Decidable (∀ T ∈ Ps.types, T.cmd = cmd → (s1 ++ s2).length ≤ T.sizeof))
  | .store _ | .finish | .get _ _ | .look _ | .load _ _ | .check _ => inferInstanceAs (Decidable True)

namespace PoolEvent

variable {Ps : PooledTypes sizeBits}

/-- What the lock of a slot sees of an event, if one thread reads. -/
def see (i : Fin Ps.types.length) (thread : Nat) : PoolEvent Ps → Option (SeqEvent UInt8)
  | .began cmd => if cmd = (Ps.type i).cmd then some .began else none
  | .wrote cmd data => if cmd = (Ps.type i).cmd then some (.wrote data) else none
  | .looked t j => if t = thread ∧ j = i then some .started else none
  | .again t j => if t = thread ∧ j = i then some .retry else none
  | .returned t j result => if t = thread ∧ j = i then some (.got result) else none

/-- A completed write to the slot. -/
def payload? (i : Fin Ps.types.length) : PoolEvent Ps → Option (List UInt8)
  | .wrote cmd data => if cmd = (Ps.type i).cmd then some data else none
  | _ => none

end PoolEvent

/-! ### One slot, one thread -/

namespace PooledTypes

variable {Ps : PooledTypes sizeBits} {i : Fin Ps.types.length}

theorem cmdIndex_typeIndex (i : Fin Ps.types.length) : Ps.cmdIndex (Ps.type i).cmd = some (Ps.typeIndex i) := by
  obtain ⟨o, found⟩ := cmdIndex_isSome (type_mem i)
  rw [typeIndex, found]
  rfl

@[simp] theorem typeSeqIndex_eq (i : Fin Ps.types.length) : Ps.typeSeqIndex i = i.val := by
  rw [typeSeqIndex, cmdSeqIndex_type]
  rfl

/-- The number tells the command. -/
theorem seqIdx_eq_iff {cmd : UInt16} {k : Nat} (found : Ps.cmdSeqIndex cmd = some k) :
    k = i.val ↔ cmd = (Ps.type i).cmd := by
  constructor
  · intro same
    obtain ⟨T, at_, rfl⟩ := cmdSeqIndex_spec found
    rw [same, List.getElem?_eq_getElem i.isLt] at at_
    rw [← Option.some_inj.mp at_]
    rfl
  · rintro rfl
    rw [cmdSeqIndex_type] at found
    exact (Option.some_inj.mp found).symm

end PooledTypes

open PooledTypes

/-- The locations of a write in progress are those of its command, and its payload fits. -/
structure PoolWrite.Placed (Ps : PooledTypes sizeBits) (w : PoolWrite) : Prop where
  index : Ps.cmdIndex w.cmd = some w.byteOffset
  seqIndex : Ps.cmdSeqIndex w.cmd = some w.seqIdx
  fits : ∀ T ∈ Ps.types, T.cmd = w.cmd → w.data.length ≤ T.sizeof

/-- What the slot with the number and the thread are for each other: a lock. -/
structure IsSlot {Ps : PooledTypes sizeBits} (i : Fin Ps.types.length) (thread : Nat) (s : Deserializer Ps)
    (q : SeqLock UInt8) : Prop where
  length_buffer : s.buffer.length = Ps.totalSize
  length_versions : s.versions.length = Ps.types.length
  placed : ∀ w ∈ s.writer, w.Placed Ps
  cells : q.cells = slice s.buffer (Ps.typeIndex i) (Ps.type i).sizeof
  version : q.version = (s.version i).toNat
  writer : q.writer = s.writer.bind fun w => if w.cmd = (Ps.type i).cmd then some ⟨w.data, w.todo⟩ else none
  reader : q.reader =
    match s.readers thread with
    | .copying j v1 result todo => if j = i then some ⟨v1.toNat, result, todo⟩ else none
    | _ => none

namespace IsSlot

variable {Ps : PooledTypes sizeBits} {i : Fin Ps.types.length} {thread : Nat} {s : Deserializer Ps} {q : SeqLock UInt8}

theorem init (i : Fin Ps.types.length) (thread : Nat) :
    IsSlot i thread (.init Ps) { cells := List.replicate (Ps.type i).sizeof 0 } where
  length_buffer := List.length_replicate
  length_versions := List.length_replicate
  placed := by simp [Deserializer.init]
  cells := by
    have inside := (PooledTypes.placed (type_mem i) (cmdIndex_typeIndex i)).2
    rw [Deserializer.init, slice, List.drop_replicate, List.take_replicate, Nat.min_eq_left (by omega)]
  version := by simp [Deserializer.init, Deserializer.version]
  writer := rfl
  reader := rfl

/-- The slot lies in the pool. -/
theorem length_cells (slot : IsSlot i thread s q) : q.cells.length = (Ps.type i).sizeof := by
  have inside := (PooledTypes.placed (type_mem i) (cmdIndex_typeIndex i)).2
  rw [slot.cells, length_slice (by rw [slot.length_buffer]; exact inside)]

/-- A version counts up when the write to its slot begins or ends. -/
theorem count {cmd : UInt16} {k : Nat} (slot : IsSlot i thread s q) (found : Ps.cmdSeqIndex cmd = some k)
    {w : Option PoolWrite} :
    (({ s with versions := s.versions.modify k (· + 1), writer := w } : Deserializer Ps).version i).toNat =
      if cmd = (Ps.type i).cmd then (q.version + 1) % 2 ^ 32 else q.version := by
  have inside : i.val < s.versions.length := by rw [slot.length_versions]; exact i.isLt
  simp only [← seqIdx_eq_iff found, slot.version, Deserializer.version, typeSeqIndex_eq, List.getD_eq_getElem?_getD,
    List.getElem?_modify, List.getElem?_eq_getElem inside]
  split
  · exact UInt32.toNat_add _ _
  · rfl

/-- Steps of the lock log what it sees of a step of the pool, and stay with it. -/
def Answers (i : Fin Ps.types.length) (thread : Nat) (q : SeqLock UInt8)
    (r : Deserializer Ps × List (PoolEvent Ps)) : Prop :=
  ∃ ps, (seqLock UInt8 (2 ^ 32)).Along (SeqInv.Fits (Ps.type i).sizeof) q ps ∧
    (seqLock UInt8 (2 ^ 32)).trace q ps = r.2.filterMap (PoolEvent.see i thread) ∧
    IsSlot i thread r.1 ((seqLock UInt8 (2 ^ 32)).exec q ps)

section Answers

variable {r : Deserializer Ps × List (PoolEvent Ps)}

theorem Answers.none (slot : IsSlot i thread r.1 q) (unseen : r.2.filterMap (PoolEvent.see i thread) = []) :
    Answers i thread q r :=
  ⟨[], trivial, unseen.symm, slot⟩

theorem Answers.one {r : Deserializer Ps × List (PoolEvent Ps)} {p : SeqOp UInt8} {next : SeqLock UInt8}
    {log : List (SeqEvent UInt8)} (does : q.step (2 ^ 32) p = (next, log))
    (fits : ∀ data, p = .beginWrite data → data.length ≤ (Ps.type i).sizeof)
    (seen : r.2.filterMap (PoolEvent.see i thread) = log) (slot : IsSlot i thread r.1 next) :
    Answers i thread q r := by
  refine ⟨[p], ⟨fits, trivial⟩, ?_, ?_⟩
  · simp only [Machine.trace, seqLock, does, List.append_nil, seen]
  · simpa only [Machine.exec, seqLock, does] using slot

end Answers

theorem write (slot : IsSlot i thread s q) {cmd : UInt16} {s1 s2 : List UInt8}
    (fits : @PoolOp.Fits _ Ps (.write cmd s1 s2)) : Answers i thread q (s.step (.write cmd s1 s2)) := by
  simp only [Deserializer.step]
  split
  · rename_i byteOffset seqIdx idle index number
    have begun : IsSlot i thread
        { s with versions := s.versions.modify seqIdx (· + 1),
                 writer := some ⟨cmd, byteOffset, seqIdx, s1 ++ s2, List.range (s1 ++ s2).length⟩ }
        { q with version := if cmd = (Ps.type i).cmd then (q.version + 1) % 2 ^ 32 else q.version,
                 writer := if cmd = (Ps.type i).cmd then some ⟨s1 ++ s2, List.range (s1 ++ s2).length⟩ else none } := by
      refine ⟨slot.length_buffer, ?_, ?_, slot.cells, (slot.count number).symm, rfl, slot.reader⟩
      · rw [List.length_modify, slot.length_versions]
      · rintro w ⟨rfl⟩
        exact ⟨index, number, fits⟩
    by_cases same : cmd = (Ps.type i).cmd
    · have free : q.writer = none := by rw [slot.writer, idle]; rfl
      simp only [if_pos same] at begun
      refine .one (p := .beginWrite (s1 ++ s2)) (by simp only [SeqLock.step, free]; rfl) ?_ ?_ begun
      · rintro data ⟨rfl⟩
        exact fits _ (type_mem i) same.symm
      · simp [PoolEvent.see, same]
    · have free : q.writer = none := by rw [slot.writer, idle]; rfl
      simp only [if_neg same, ← free] at begun
      exact .none begun (by simpa [PoolEvent.see] using same)
  · exact .none slot rfl

theorem store (slot : IsSlot i thread s q) (j : Nat) : Answers i thread q (s.step (.store j)) := by
  simp only [Deserializer.step]
  split
  · exact .none slot rfl
  · rename_i w writes
    split
    · exact .none slot rfl
    · rename_i byte at_
      split
      · rename_i left
        have placed := slot.placed w writes
        have lockWriter := slot.writer
        rw [writes, Option.bind_some] at lockWriter
        by_cases same : w.cmd = (Ps.type i).cmd
        · have offset : w.byteOffset = Ps.typeIndex i := by
            have index := placed.index
            rw [same, cmdIndex_typeIndex] at index
            exact (Option.some_inj.mp index).symm
          rw [if_pos same] at lockWriter
          refine .one (p := .store j) (by simp only [SeqLock.step, lockWriter, at_, if_pos left]; rfl) (by simp) rfl ?_
          refine ⟨?_, slot.length_versions, ?_, ?_, slot.version, ?_, slot.reader⟩
          · rw [List.length_set, slot.length_buffer]
          · rintro v ⟨rfl⟩
            exact ⟨placed.index, placed.seqIndex, placed.fits⟩
          · rw [offset, slice_set_inside, slot.cells]
          · simp [same]
        · rw [if_neg same] at lockWriter
          refine .none ⟨?_, slot.length_versions, ?_, ?_, slot.version, ?_, slot.reader⟩ rfl
          · rw [List.length_set, slot.length_buffer]
          · rintro v ⟨rfl⟩
            exact ⟨placed.index, placed.seqIndex, placed.fits⟩
          · obtain ⟨U, has, cmd⟩ := cmdSeqIndex_spec placed.seqIndex
            have other : U ∈ Ps.types := List.mem_of_getElem? has
            have room := placed.fits U other cmd
            obtain ⟨inside, -⟩ := List.getElem?_eq_some_iff.mp at_
            have outside := apart (type_mem i) other (by rw [cmd]; exact Ne.symm same) (cmdIndex_typeIndex i)
              (by rw [cmd]; exact placed.index)
            rw [slot.cells, slice_set_outside _ _ (by omega)]
          · rw [lockWriter]
            exact (if_neg same).symm
      · exact .none slot rfl

theorem finish (slot : IsSlot i thread s q) : Answers i thread q (s.step .finish) := by
  simp only [Deserializer.step]
  split
  · exact .none slot rfl
  · rename_i w writes
    split
    · rename_i done
      have placed := slot.placed w writes
      have lockWriter := slot.writer
      rw [writes, Option.bind_some] at lockWriter
      have ended : IsSlot i thread { s with versions := s.versions.modify w.seqIdx (· + 1), writer := none }
          { q with version := if w.cmd = (Ps.type i).cmd then (q.version + 1) % 2 ^ 32 else q.version,
                   writer := none } :=
        ⟨slot.length_buffer, by rw [List.length_modify, slot.length_versions], by simp, slot.cells,
          (slot.count placed.seqIndex).symm, rfl, slot.reader⟩
      by_cases same : w.cmd = (Ps.type i).cmd
      · rw [if_pos same] at lockWriter
        simp only [if_pos same] at ended
        refine .one (p := .endWrite) (by simp only [SeqLock.step, lockWriter, if_pos done]; rfl) (by simp) ?_ ended
        simp [PoolEvent.see, same]
      · rw [if_neg same] at lockWriter
        simp only [if_neg same, ← lockWriter] at ended
        exact .none ended (by simpa [PoolEvent.see] using same)
    · exact .none slot rfl

section Reading

variable {t : Nat} {r : PoolRead Ps}

theorem setReader (slot : IsSlot i thread s q) {reader : Option (SeqReader UInt8)}
    (same : reader = match (s.setReader t r).readers thread with
      | .copying j v1 result todo => if j = i then some ⟨v1.toNat, result, todo⟩ else none
      | _ => none) :
    IsSlot i thread (s.setReader t r) { q with reader := reader } :=
  ⟨slot.length_buffer, slot.length_versions, slot.placed, slot.cells, slot.version, slot.writer, same⟩

/-- What another thread does is not seen. -/
theorem elsewhere (slot : IsSlot i thread s q) (other : t ≠ thread) : IsSlot i thread (s.setReader t r) q :=
  slot.setReader (by rw [slot.reader, Deserializer.setReader]; simp only [if_neg other.symm])

theorem get (slot : IsSlot i thread s q) (t : Nat) (j : Fin Ps.types.length) :
    Answers i thread q (s.step (.get t j)) := by
  simp only [Deserializer.step]
  split
  · rename_i idle
    by_cases here : t = thread
    · subst here
      have free := slot.reader
      rw [idle] at free
      exact .none (slot.setReader (by simp [free, Deserializer.setReader])) rfl
    · exact .none (slot.elsewhere here) rfl
  · exact .none slot rfl

theorem look (slot : IsSlot i thread s q) (t : Nat) : Answers i thread q (s.step (.look t)) := by
  simp only [Deserializer.step]
  split
  · rename_i j looking
    by_cases seen : t = thread ∧ j = i
    · obtain ⟨rfl, rfl⟩ := seen
      have free := slot.reader
      rw [looking] at free
      refine .one (p := .beginRead) (by simp only [SeqLock.step, free]; rfl) (by simp) (by simp [PoolEvent.see]) ?_
      refine slot.setReader ?_
      simp [Deserializer.setReader, slot.version, slot.length_cells]
    · refine .none ?_ (by simp [PoolEvent.see, seen])
      by_cases here : t = thread
      · subst here
        have other : ¬ j = i := fun same => seen ⟨rfl, same⟩
        have free := slot.reader
        rw [looking] at free
        exact slot.setReader (by simp [free, Deserializer.setReader, other])
      · exact slot.elsewhere here
  · exact .none slot rfl

theorem load (slot : IsSlot i thread s q) (t k : Nat) : Answers i thread q (s.step (.load t k)) := by
  simp only [Deserializer.step]
  split
  · rename_i j v1 result todo copying
    split
    · rename_i inside
      by_cases here : t = thread
      · subst here
        have reads := slot.reader
        simp only [copying] at reads
        by_cases same : j = i
        · subst same
          rw [if_pos rfl] at reads
          refine .one (p := .load k) (by simp only [SeqLock.step, reads]; rfl) (by simp) rfl (slot.setReader ?_)
          have cell : q.cells[k]? = s.buffer[Ps.typeIndex j + k]? := by
            rw [slot.cells, slice, List.getElem?_take_of_lt inside, List.getElem?_drop]
          simp [Deserializer.setReader, cell]
        · rw [if_neg same] at reads
          exact .none (slot.setReader (by simp [reads, Deserializer.setReader, same])) rfl
      · exact .none (slot.elsewhere here) rfl
    · exact .none slot rfl
  · exact .none slot rfl

theorem check (slot : IsSlot i thread s q) (t : Nat) : Answers i thread q (s.step (.check t)) := by
  simp only [Deserializer.step]
  split
  · rename_i j v1 result copying
    by_cases here : t = thread
    · subst here
      have reads := slot.reader
      simp only [copying] at reads
      by_cases same : j = i
      · subst same
        rw [if_pos rfl] at reads
        have agree : (v1 ≠ s.version j ∨ v1 &&& 1 ≠ 0) ↔ ¬ (v1.toNat = q.version ∧ v1.toNat % 2 = 0) := by
          rw [slot.version, UInt32.toNat_inj, ← Nat.and_one_is_mod, not_and_or]
          exact or_congr_right (not_congr UInt32.toNat_inj.symm)
        by_cases changed : v1 ≠ s.version j ∨ v1 &&& 1 ≠ 0
        · have does : q.step (2 ^ 32) .endRead = ({ q with reader := none }, [.retry]) := by
            simp only [SeqLock.step, reads, if_neg (agree.mp changed)]
            rfl
          rw [if_pos changed]
          exact .one does (by simp) (by simp [PoolEvent.see]) (slot.setReader (by simp [Deserializer.setReader]))
        · have does : q.step (2 ^ 32) .endRead = ({ q with reader := none }, [.got result]) := by
            simp only [SeqLock.step, reads, if_pos (not_not.mp fun h => changed (agree.mpr h))]
            rfl
          rw [if_neg changed]
          exact .one does (by simp) (by simp [PoolEvent.see]) (slot.setReader (by simp [Deserializer.setReader]))
      · rw [if_neg same] at reads
        split
        · exact .none (slot.setReader (by simp [reads, Deserializer.setReader])) (by simp [PoolEvent.see, same])
        · exact .none (slot.setReader (by simp [reads, Deserializer.setReader])) (by simp [PoolEvent.see, same])
    · split
      · exact .none (slot.elsewhere here) (by simp [PoolEvent.see, here])
      · exact .none (slot.elsewhere here) (by simp [PoolEvent.see, here])
  · exact .none slot rfl

end Reading

end IsSlot

/-- **Each slot is a sequence lock** for each thread that reads it. -/
theorem pool_simulates_slot {Ps : PooledTypes sizeBits} (i : Fin Ps.types.length) (thread : Nat) :
    Simulates (pool Ps) (seqLock UInt8 (2 ^ 32)) (IsSlot i thread) (fun _ op => op.Fits)
      (SeqInv.Fits (Ps.type i).sizeof) (PoolEvent.see i thread) where
  step := by
    intro s q op slot fits
    cases op with
    | write cmd s1 s2 => exact slot.write fits
    | store j => exact slot.store j
    | finish => exact slot.finish
    | get t j => exact slot.get t j
    | look t => exact slot.look t
    | load t k => exact slot.load t k
    | check t => exact slot.check t

/-- The number of times a version changes while an attempt of `get` that succeeds is under way
stays below the number of versions. -/
def NotLapped {Ps : PooledTypes sizeBits} (i : Fin Ps.types.length) (thread : Nat) (log : List (PoolEvent Ps)) : Prop :=
  InTime (2 ^ 32) (log.filterMap (PoolEvent.see i thread))

/-- **No torn packets.** What a `get` returns is what the writes to its type that were complete by
then have made of the zeros of the slot. -/
theorem get_whole {Ps : PooledTypes sizeBits} (ops : List (PoolOp Ps)) (fits : ∀ op ∈ ops, op.Fits)
    {i : Fin Ps.types.length} {thread : Nat} (inTime : NotLapped i thread ((pool Ps).trace (.init Ps) ops))
    {pre post : List (PoolEvent Ps)} {result : List (Option UInt8)}
    (split : (pool Ps).trace (.init Ps) ops = pre ++ .returned thread i result :: post) :
    result = ((pre.filterMap (PoolEvent.payload? i)).foldl SeqLock.overwrite
      (List.replicate (Ps.type i).sizeof 0)).map some := by
  obtain ⟨ps, along, log, -⟩ := (pool_simulates_slot i thread).run (IsSlot.init i thread) ops
    ((pool Ps).along_of _ fits)
  rw [NotLapped, ← log] at inTime
  have answers : (seqLock UInt8 (2 ^ 32)).trace { cells := List.replicate (Ps.type i).sizeof 0 } ps =
      pre.filterMap (PoolEvent.see i thread) ++ .got result :: post.filterMap (PoolEvent.see i thread) := by
    rw [log, split, List.filterMap_append, List.filterMap_cons]
    simp [PoolEvent.see]
  have payloads : (pre.filterMap (PoolEvent.see i thread)).filterMap SeqEvent.write? =
      pre.filterMap (PoolEvent.payload? i) := by
    rw [List.filterMap_filterMap]
    congr 1
    funext e
    cases e <;> simp only [PoolEvent.see, PoolEvent.payload?] <;> split <;> rfl
  rw [← payloads]
  exact SeqLock.reads (by decide) List.length_replicate ps along inTime answers

/-- One packet of two bytes. -/
def twoBytes : PooledTypes 32 := ⟨[⟨0x0101, 2, 0, by decide⟩], by decide, by decide⟩

/-- A `get` between whose bytes a write begins tries again. -/
theorem get_whole_torn :
    [some 7, some 9] =
      ((([.looked 0 ⟨0, by decide⟩, .began 0x0101, .again 0 ⟨0, by decide⟩, .wrote 0x0101 [7, 9],
        .looked 0 ⟨0, by decide⟩] : List (PoolEvent twoBytes)).filterMap (PoolEvent.payload? ⟨0, by decide⟩)).foldl
          SeqLock.overwrite [0, 0]).map some := by
  have split : (pool twoBytes).trace (.init twoBytes) [.get 0 ⟨0, by decide⟩, .look 0, .load 0 0,
      .write 0x0101 [7] [9], .store 1, .load 0 1, .check 0, .store 0, .finish, .look 0, .load 0 1, .load 0 0,
        .check 0] =
      [.looked 0 ⟨0, by decide⟩, .began 0x0101, .again 0 ⟨0, by decide⟩, .wrote 0x0101 [7, 9],
        .looked 0 ⟨0, by decide⟩] ++ .returned 0 ⟨0, by decide⟩ [some 7, some 9] :: [] := by
    decide +kernel
  refine get_whole _ (by decide) ?_ split
  rw [NotLapped, split]
  exact InTime.of_few (by decide)

end FloridUsb.Rpl
