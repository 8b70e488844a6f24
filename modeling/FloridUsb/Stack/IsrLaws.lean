import FloridUsb.Stack.IsrSteps

/-!
# The laws of the interrupt ring

What the two sides of the ring can rely on, over any interleaving of their accesses. The order
and the bound come from the queue the ring refines. The others say what a producer does to the
memory before its write is accepted: nothing, if it is refused, but to count the refusal, and
a refusal is right about the room there was when the read index was loaded.
-/

namespace FloridUsb.Stack
set_option autoImplicit false

open Lib

/-- The producer has not begun to copy. -/
def Writer.Settled {N : Nat} : Writer N → Prop
  | .copying _ _ _ => False
  | _ => True

def RingReturn.isRefused {N : Nat} : RingReturn N → Bool
  | .refused _ _ => true
  | _ => false

namespace SharedRing

variable {N : Nat}

/-- The chunks that were accepted, one after the other. -/
def bytesWritten (log : List (RingReturn N)) : List UInt8 := (log.filterMap RingReturn.effect).flatMap FifoOp.pushed

def bytesRead (log : List (RingReturn N)) : List UInt8 := (log.filterMap RingReturn.effect).flatMap FifoOp.popped

section Laws

variable {k : Nat} {s : SharedRing N}

/-- A turn that is not the producer's: its side of the memory stays as it is. -/
structure Bystander (s : SharedRing N) (r : SharedRing N × List (RingReturn N)) : Prop where
  writer : r.1.writer = s.writer
  buf : r.1.buf = s.buf
  writeIdx : r.1.writeIdx = s.writeIdx
  dropCount : r.1.dropCount = s.dropCount
  returns : ∀ e ∈ r.2, ∃ out, e = .took out

theorem Bystander.silent {t : SharedRing N} (writer : t.writer = s.writer) (buf : t.buf = s.buf)
    (writeIdx : t.writeIdx = s.writeIdx) (dropCount : t.dropCount = s.dropCount) : Bystander s (t, []) where
  writer := writer
  buf := buf
  writeIdx := writeIdx
  dropCount := dropCount
  returns := fun _ member => by cases member

theorem read_bystander (max : Nat) : Bystander s (s.turn k (.read max)) := by
  simp only [turn]
  split
  · exact Bystander.silent rfl rfl rfl rfl
  · exact Bystander.silent rfl rfl rfl rfl

theorem consume_bystander : Bystander s (s.turn k .consume) := by
  simp only [turn, consume]
  split
  next => exact Bystander.silent rfl rfl rfl rfl
  next max _ =>
    split
    · exact ⟨rfl, rfl, rfl, rfl, fun e member => ⟨_, List.mem_singleton.mp member⟩⟩
    · exact Bystander.silent rfl rfl rfl rfl
  next n out _ =>
    split
    · exact Bystander.silent rfl rfl rfl rfl
    · exact ⟨rfl, rfl, rfl, rfl, fun e member => ⟨_, List.mem_singleton.mp member⟩⟩

/-- A turn is the producer's next step, or its call, or none of its business. -/
theorem turn_cases (t : Turn) :
    Bystander s (s.turn k t) ∨ (∃ data, s.writer = .idle ∧ s.turn k t = ({ s with writer := .entered data }, [])) ∨
      t = .produce := by
  cases t with
  | write data =>
    by_cases idle : s.writer = .idle
    · refine Or.inr (Or.inl ⟨data, idle, ?_⟩)
      simp only [turn, if_pos idle]
    · refine Or.inl ?_
      simp only [turn, if_neg idle]
      exact Bystander.silent rfl rfl rfl rfl
  | produce => exact Or.inr (Or.inr rfl)
  | read max => exact Or.inl (read_bystander max)
  | consume => exact Or.inl consume_bystander

/-- A turn that accepts nothing and leaves the producer settled found it settled, and moves
nothing on its side but the drop count, by its refusals. -/
theorem turn_refusing (t : Turn) (none : ∀ data, RingReturn.accepted data ∉ (s.turn k t).2)
    (after : (s.turn k t).1.writer.Settled) :
    (s.turn k t).1.buf = s.buf ∧ (s.turn k t).1.writeIdx = s.writeIdx ∧
      (s.turn k t).1.dropCount = s.dropCount + BitVec.ofNat N ((s.turn k t).2.countP RingReturn.isRefused) ∧
      s.writer.Settled := by
  rcases turn_cases (k := k) (s := s) t with aside | ⟨data, idle, call⟩ | rfl
  · have unrefused : (s.turn k t).2.countP RingReturn.isRefused = 0 := by
      rw [List.countP_eq_zero]
      intro e member
      obtain ⟨out, rfl⟩ := aside.returns e member
      exact Bool.false_ne_true
    refine ⟨aside.buf, aside.writeIdx, ?_, ?_⟩
    · rw [unrefused, aside.dropCount]
      simp
    · rw [← aside.writer]
      exact after
  · rw [call, idle]
    exact ⟨rfl, rfl, by simp, trivial⟩
  · simp only [turn, produce] at none after ⊢
    cases at_ : s.writer with
    | idle => exact ⟨rfl, rfl, by simp, trivial⟩
    | entered data =>
      dsimp only
      split <;> exact ⟨rfl, rfl, by simp, trivial⟩
    | sizing data w =>
      dsimp only
      split <;> exact ⟨rfl, rfl, by simp, trivial⟩
    | copying data w done =>
      simp only [at_] at none after
      split at after
      · exact absurd after (fun no => no)
      · rename_i last
        simp only [last] at none
        exact absurd List.mem_cons_self (none data)
    | dropping data seen => exact ⟨rfl, rfl, by simp [RingReturn.isRefused], trivial⟩

/-- What the producer's side has come to since a state `u` in which it had not begun to copy, as
long as no write is accepted. -/
structure Refusing (u t : SharedRing N) (log : List (RingReturn N)) : Prop where
  buf : t.buf = u.buf
  writeIdx : t.writeIdx = u.writeIdx
  dropCount : t.dropCount = u.dropCount + BitVec.ofNat N (log.countP RingReturn.isRefused)

theorem refusing_run {u : SharedRing N} (turns : List Turn)
    (none : ∀ data, RingReturn.accepted data ∉ (sides N k).trace u turns) :
    ((sides N k).exec u turns).writer.Settled → Refusing u ((sides N k).exec u turns) ((sides N k).trace u turns) := by
  refine (sides N k).run_invariant (G := fun log => ∀ data, RingReturn.accepted data ∉ log)
    (I := fun t log => t.writer.Settled → Refusing u t log) ?_ ?_ ?_ turns none
  · exact fun log ev clean data member => clean data (List.mem_append_left _ member)
  · exact fun _ => ⟨rfl, rfl, by simp⟩
  · intro t log o ih clean after
    have quiet (data : List UInt8) : RingReturn.accepted data ∉ ((sides N k).step t o).2 :=
      fun member => clean data (List.mem_append_right _ member)
    have shared : ((sides N k).step t o).1.buf = t.buf ∧ ((sides N k).step t o).1.writeIdx = t.writeIdx ∧
        ((sides N k).step t o).1.dropCount =
          t.dropCount + BitVec.ofNat N (((sides N k).step t o).2.countP RingReturn.isRefused) ∧ t.writer.Settled :=
      turn_refusing o quiet after
    obtain ⟨buf, writeIdx, dropCount, before⟩ := shared
    obtain ⟨buf', writeIdx', dropCount'⟩ := ih before
    constructor
    · rw [buf, buf']
    · rw [writeIdx, writeIdx']
    · rw [dropCount, dropCount', List.countP_append, BitVec.ofNat_add, BitVec.add_assoc]

/-- The producer loaded the read index `r` when there was too little room for the chunk, and has
not returned since. -/
structure SawFull (k : Nat) (before after : List Turn) (data : List UInt8) (r : BitVec N) : Prop where
  loading : ((sides N k).exec (init N k) before).writer = .sizing data ((sides N k).exec (init N k) before).writeIdx
  seen : ((sides N k).exec (init N k) before).readIdx = r
  full : capacity k - (((sides N k).exec (init N k) before).writeIdx - r).toNat < data.length
  same : ∀ e ∈ (sides N k).trace ((sides N k).exec (init N k) before) after, ∃ out, e = .took out

theorem SawFull.later {before after : List Turn} {data : List UInt8} {r : BitVec N}
    (saw : SawFull k before after data r)
    {t : Turn} (aside : Bystander ((sides N k).exec (init N k) (before ++ after))
      (((sides N k).exec (init N k) (before ++ after)).turn k t)) : SawFull k before (after ++ [t]) data r where
  loading := saw.loading
  seen := saw.seen
  full := saw.full
  same := by
    rw [(sides N k).trace_snoc, ← (sides N k).exec_append]
    intro e member
    rcases List.mem_append.mp member with old | new
    · exact saw.same e old
    · exact aside.returns e new

/-- A producer about to count a drop loaded both indices, and the chunk was too long, or was
longer than the ring to begin with. -/
theorem dropping_saw (narrow : k < N) (turns : List Turn) {data : List UInt8} {seen : Option (BitVec N)}
    (dropping : ((sides N k).exec (init N k) turns).writer = .dropping data seen) :
    (seen = none ∧ capacity k < data.length) ∨
      ∃ r before after, seen = some r ∧ turns = before ++ .produce :: after ∧
        SawFull k before (.produce :: after) data r := by
  induction turns using List.reverseRecOn with
  | nil => cases dropping
  | append_singleton turns t ih =>
    have sound := (refines_fifo narrow turns).1
    rw [(sides N k).exec_snoc] at dropping
    generalize hs : (sides N k).exec (init N k) turns = s at ih sound dropping
    rcases turn_cases (k := k) (s := s) t with aside | ⟨data', idle, call⟩ | rfl
    · rcases ih (aside.writer.symm.trans dropping) with long | ⟨r, before, after, some, rfl, saw⟩
      · exact Or.inl long
      · refine Or.inr ⟨r, before, after ++ [t], some, by simp, ?_⟩
        apply saw.later
        rw [hs]
        exact aside
    · simp only [sides, call] at dropping
      cases dropping
    · simp only [sides, turn, produce] at dropping
      cases at_ : s.writer with
      | idle =>
        simp only [at_] at dropping
        cases dropping
      | entered data' =>
        simp only [at_] at dropping
        split at dropping
        · rename_i long
          cases dropping
          exact Or.inl ⟨rfl, long⟩
        · cases dropping
      | sizing data' w =>
        have snapshot := sound.writer
        simp only [WriterSound, at_] at snapshot
        obtain ⟨rfl, -⟩ := snapshot
        simp only [at_] at dropping
        rw [room_eq narrow sound] at dropping
        split at dropping
        · rename_i full
          cases dropping
          refine Or.inr ⟨s.readIdx, turns, [], rfl, rfl, ?_⟩
          constructor
          · rw [hs]
            exact at_
          · rw [hs]
          · rw [hs]
            exact full
          · rw [hs]
            intro e member
            simp only [sides, Machine.trace, turn, produce, at_, room_eq narrow sound, if_pos full] at member
            cases member
        · cases dropping
      | copying data' w done =>
        simp only [at_] at dropping
        split at dropping <;> cases dropping
      | dropping data' seen' =>
        simp only [at_] at dropping
        cases dropping

/-- Only a producer that was about to count a drop refuses. -/
theorem refused_dropping (t : Turn) {data : List UInt8} {seen : Option (BitVec N)}
    (member : RingReturn.refused data seen ∈ (s.turn k t).2) : s.writer = .dropping data seen := by
  rcases turn_cases (k := k) (s := s) t with aside | ⟨data', idle, call⟩ | rfl
  · obtain ⟨out, other⟩ := aside.returns _ member
    cases other
  · rw [call] at member
    cases member
  · simp only [turn, produce] at member
    split at member
    next => cases member
    next => split at member <;> cases member
    next => split at member <;> cases member
    next =>
      split at member
      · cases member
      · cases List.mem_singleton.mp member
    next at_ =>
      cases List.mem_singleton.mp member
      exact at_

/-- The laws of a ring that has gone through the turns. -/
structure RingLaws (N k : Nat) (turns : List Turn) : Prop where
  /-- What the calls did, in the order of their returns, is a run of a bounded queue. -/
  fifo : FifoRun (capacity k) [] (((sides N k).trace (init N k) turns).filterMap RingReturn.effect)
    (((sides N k).exec (init N k) turns).content k)
  reads_prefix : bytesRead ((sides N k).trace (init N k) turns) <+: bytesWritten ((sides N k).trace (init N k) turns)
  /-- A chunk is in the queue as a whole or not at all. -/
  whole : bytesRead ((sides N k).trace (init N k) turns) ++ ((sides N k).exec (init N k) turns).content k =
    bytesWritten ((sides N k).trace (init N k) turns)
  /-- Refused writes change nothing but the drop count. -/
  refusals : ∀ pre post, turns = pre ++ post →
    (∀ data, RingReturn.accepted data ∉ (sides N k).trace ((sides N k).exec (init N k) pre) post) →
    ((sides N k).exec (init N k) turns).writer.Settled →
    Refusing ((sides N k).exec (init N k) pre) ((sides N k).exec (init N k) turns)
      ((sides N k).trace ((sides N k).exec (init N k) pre) post)
  /-- A write is refused if it is longer than the ring, or than the room by the read index it has seen. -/
  refused : ∀ t data seen, RingReturn.refused data seen ∈ (((sides N k).exec (init N k) turns).turn k t).2 →
    (seen = none ∧ capacity k < data.length) ∨
      ∃ r before after, seen = some r ∧ turns = before ++ .produce :: after ∧
        SawFull k before (.produce :: after) data r
  bounded : ((sides N k).exec (init N k) turns).available ≤ capacity k
  /-- The byte that is about to be copied in goes to a cell that holds no unread byte. -/
  unread_kept : ∀ data w done, ((sides N k).exec (init N k) turns).writer = .copying data w done → done < data.length →
    ∀ i < ((sides N k).exec (init N k) turns).available,
      cell k w done ≠ cell k ((sides N k).exec (init N k) turns).readIdx i

/-- **The interrupt ring is a bounded FIFO queue** under every interleaving of one producer and one
consumer, across the wrap of its indices. -/
theorem ring_laws {N k : Nat} (narrow : k < N) (turns : List Turn) : RingLaws N k turns := by
  obtain ⟨sound, fifo⟩ := refines_fifo narrow turns
  constructor
  · exact fifo
  · exact fifo.popped_prefix
  · exact fifo.history.symm
  · rintro pre post rfl none settled
    rw [(sides N k).exec_append] at settled ⊢
    exact refusing_run post none settled
  · intro t data seen member
    apply dropping_saw narrow
    exact refused_dropping t member
  · exact sound.filled
  · intro data w done copying more i unread
    have snapshot := sound.writer
    simp only [WriterSound, copying] at snapshot
    obtain ⟨rfl, room, -, -⟩ := snapshot
    exact cell_room_ne narrow unread (by omega)

/-- A ring of two bytes with indices of two bits. Both have wrapped when a write of two bytes sees one byte
unread, and is refused although that byte has been read by then. -/
theorem ring_laws_wrapped :
    let first : List Turn := [.write [1], .produce, .produce, .produce, .produce]
    let both : List Turn := [.write [7], .produce, .read 1, .consume, .produce, .produce, .consume, .produce, .consume]
    let late : List Turn := [.write [8, 9], .produce, .produce, .read 2, .consume, .consume, .consume, .produce]
    let turns := first ++ both ++ both ++ both ++ both ++ late
    ((sides 2 1).trace (init 2 1) turns).drop 9 = [.took [7], .refused [8, 9] (some 0)] ∧ RingLaws 2 1 turns :=
  ⟨by decide, ring_laws (by decide) _⟩

end Laws

end SharedRing

end FloridUsb.Stack
