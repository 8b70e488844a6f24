import FloridUsb.Lib.SlidingWindow
import FloridUsb.Lib.Machine
import Mathlib.Algebra.GroupWithZero.Nat

/-!
# Sequence locks

A writer and a reader share some cells without waiting for each other. The writer counts a version
up before and after it stores, the reader copies the cells between two looks at the version and
tries again unless it has seen the same even number twice. Each step is a single access, in any
interleaving, and the cells may be stored and loaded in any order.

A read that comes to an end returns what the writes completed by then have made of the cells, and
none is in progress (`SeqLock.reads`), unless the version has come around during the attempt.
-/

namespace FloridUsb.Lib
set_option autoImplicit false

/-- A write in progress: the cells of `todo` are still to be stored. -/
structure SeqWriter (α : Type) where
  data : List α
  todo : List Nat

/-- A read in progress: the version it has seen and what it has copied. -/
structure SeqReader (α : Type) where
  seen : Nat
  got : List (Option α)
  todo : List Nat

structure SeqLock (α : Type) where
  cells : List α
  version : Nat := 0
  writer : Option (SeqWriter α) := none
  reader : Option (SeqReader α) := none

inductive SeqOp (α : Type) where
  | beginWrite (data : List α)
  | store (i : Nat)
  | endWrite
  | beginRead
  | load (i : Nat)
  | endRead

inductive SeqEvent (α : Type) where
  | began
  | wrote (data : List α)
  | started
  | got (out : List (Option α))
  | retry

namespace SeqLock

variable {α : Type}

/-- The cells with a write carried out. -/
def overwrite (cells data : List α) : List α := data ++ cells.drop data.length

/-- One access, for versions below `M`. An operation that does not fit is none. -/
def step (M : Nat) (s : SeqLock α) : SeqOp α → SeqLock α × List (SeqEvent α)
  | .beginWrite data =>
    match s.writer with
    | none => ({ s with version := (s.version + 1) % M, writer := some ⟨data, List.range data.length⟩ }, [.began])
    | some _ => (s, [])
  | .store i =>
    match s.writer with
    | none => (s, [])
    | some w =>
      match w.data[i]? with
      | none => (s, [])
      | some a =>
        if i ∈ w.todo then
          ({ s with cells := s.cells.set i a, writer := some { w with todo := w.todo.filter (· ≠ i) } }, [])
        else (s, [])
  | .endWrite =>
    match s.writer with
    | none => (s, [])
    | some w =>
      if w.todo = [] then ({ s with version := (s.version + 1) % M, writer := none }, [.wrote w.data]) else (s, [])
  | .beginRead =>
    match s.reader with
    | none =>
      ({ s with reader := some ⟨s.version, List.replicate s.cells.length none, List.range s.cells.length⟩ }, [.started])
    | some _ => (s, [])
  | .load i =>
    match s.reader with
    | none => (s, [])
    | some r =>
      ({ s with reader := some { r with got := r.got.set i s.cells[i]?, todo := r.todo.filter (· ≠ i) } }, [])
  | .endRead =>
    match s.reader with
    | none => (s, [])
    | some r =>
      if r.todo = [] then
        if r.seen = s.version ∧ r.seen % 2 = 0 then ({ s with reader := none }, [.got r.got])
        else ({ s with reader := none }, [.retry])
      else (s, [])

end SeqLock

/-- The interleavings of a writer and a reader. -/
def seqLock (α : Type) (M : Nat) : Machine (SeqLock α) (SeqOp α) (SeqEvent α) where
  step := SeqLock.step M

/-! ### What a log says -/

namespace SeqEvent

variable {α : Type}

/-- Whether the version is counted up. -/
def ticks : SeqEvent α → Nat
  | .began | .wrote _ => 1
  | _ => 0

def write? : SeqEvent α → Option (List α)
  | .wrote data => some data
  | _ => none

end SeqEvent

section Logs

variable {α : Type}

/-- How often the version has been counted up. -/
def seqTicks (log : List (SeqEvent α)) : Nat := (log.map SeqEvent.ticks).sum

/-- How often it has been since the last attempt to read began. -/
def ticksSince (log : List (SeqEvent α)) : Nat :=
  log.foldl (fun k e => match e with | .started => 0 | e => k + e.ticks) 0

/-- What the completed writes make of the cells. -/
def written (cells : List α) (log : List (SeqEvent α)) : List α :=
  (log.filterMap SeqEvent.write?).foldl SeqLock.overwrite cells

@[simp] theorem seqTicks_append (a b : List (SeqEvent α)) : seqTicks (a ++ b) = seqTicks a + seqTicks b := by
  rw [seqTicks, List.map_append, List.sum_append_nat]
  rfl

theorem written_append (cells : List α) (a b : List (SeqEvent α)) :
    written cells (a ++ b) = written (written cells a) b := by
  rw [written, List.filterMap_append, List.foldl_append]
  rfl

/-- The attempts of a log that succeed do so before the version comes around. -/
def InTime (M : Nat) (log : List (SeqEvent α)) : Prop :=
  ∀ pre out post, log = pre ++ .got out :: post → ticksSince pre < M

theorem InTime.left {M : Nat} {a b : List (SeqEvent α)} (inTime : InTime M (a ++ b)) : InTime M a := by
  rintro pre out post rfl
  exact inTime pre out (post ++ b) (by simp)

@[simp] theorem seqTicks_snoc (log : List (SeqEvent α)) (e : SeqEvent α) :
    seqTicks (log ++ [e]) = seqTicks log + e.ticks := by
  rw [seqTicks_append]
  rfl

theorem written_snoc (cells : List α) (log : List (SeqEvent α)) (e : SeqEvent α) :
    written cells (log ++ [e]) =
      match e.write? with | some data => SeqLock.overwrite (written cells log) data | none => written cells log := by
  rw [written_append]
  cases e <;> rfl

@[simp] theorem written_nil (cells : List α) : written cells ([] : List (SeqEvent α)) = cells := rfl

@[simp] theorem ticksSince_snoc (log : List (SeqEvent α)) (e : SeqEvent α) :
    ticksSince (log ++ [e]) = match e with | .started => 0 | e => ticksSince log + e.ticks := by
  rw [ticksSince, List.foldl_append]
  rfl

theorem ticksSince_le (log : List (SeqEvent α)) : ticksSince log ≤ seqTicks log := by
  induction log using List.reverseRecOn with
  | nil => exact Nat.le_refl _
  | append_singleton log e ih =>
    rw [ticksSince_snoc, seqTicks_snoc]
    cases e with
    | started => exact Nat.zero_le _
    | _ => exact Nat.add_le_add_right ih _

theorem seqTicks_le_append (a b : List (SeqEvent α)) : seqTicks a ≤ seqTicks (a ++ b) := by
  rw [seqTicks_append]
  exact Nat.le_add_right _ _

/-- It takes `M` changes to come around. -/
theorem InTime.of_few {M : Nat} {log : List (SeqEvent α)} (few : seqTicks log < M) : InTime M log := by
  rintro pre out post rfl
  have since := ticksSince_le pre
  have whole := seqTicks_le_append pre (.got out :: post)
  omega

end Logs

/-! ### What both sides keep -/

section Overwriting

variable {α : Type} {cells data : List α} {i : Nat}

theorem SeqLock.overwrite_getElem?_lt (inside : i < data.length) : (SeqLock.overwrite cells data)[i]? = data[i]? :=
  List.getElem?_append_left inside

theorem SeqLock.overwrite_getElem?_ge (outside : data.length ≤ i) : (SeqLock.overwrite cells data)[i]? = cells[i]? := by
  rw [SeqLock.overwrite, List.getElem?_append_right outside, List.getElem?_drop]
  congr 1
  omega

end Overwriting

/-- A write finds the version even and leaves it odd until it is through; a read that has not seen
the version change has copied what is there. -/
structure SeqInv {α : Type} (n M : Nat) (init : List α) (s : SeqLock α) (log : List (SeqEvent α)) : Prop where
  length_cells : s.cells.length = n
  length_written : (written init log).length = n
  version : s.version = seqTicks log % M
  resting : s.writer = none → seqTicks log % 2 = 0 ∧ s.cells = written init log
  writing : ∀ w ∈ s.writer, seqTicks log % 2 = 1 ∧ w.data.length ≤ n ∧
    ∀ i, i ∉ w.todo → s.cells[i]? = (SeqLock.overwrite (written init log) w.data)[i]?
  reading : ∀ r ∈ s.reader, r.got.length = n ∧ r.seen = (seqTicks log - ticksSince log) % M ∧
    (ticksSince log = 0 → seqTicks log % 2 = 0 → ∀ i < n, i ∉ r.todo → r.got[i]? = some s.cells[i]?)
  answered : ∀ pre out post, log = pre ++ .got out :: post → out = (written init pre).map some

namespace SeqInv

variable {α : Type} {n M : Nat} {init data : List α} {s : SeqLock α} {log : List (SeqEvent α)}

theorem start (length : init.length = n) : SeqInv n M init { cells := init } [] where
  length_cells := length
  length_written := length
  version := (Nat.zero_mod M).symm
  resting := fun _ => ⟨rfl, rfl⟩
  writing := by simp
  reading := by simp
  answered := by simp

theorem answered_snoc (inv : SeqInv n M init s log) {e : SeqEvent α}
    (right : ∀ out, e = .got out → out = (written init log).map some) (pre : List (SeqEvent α))
    (out : List (Option α)) (post : List (SeqEvent α)) (split : log ++ [e] = pre ++ .got out :: post) :
    out = (written init pre).map some := by
  rcases snoc_eq_append_cons split with ⟨rfl, last, -⟩ | ⟨front, -, before⟩
  · exact right out last.symm
  · exact inv.answered pre out front before

theorem beginWrite (inv : SeqInv n M init s log) (idle : s.writer = none) (fits : data.length ≤ n) :
    SeqInv n M init { s with version := (s.version + 1) % M, writer := some ⟨data, List.range data.length⟩ }
      (log ++ [.began]) := by
  obtain ⟨even, cells⟩ := inv.resting idle
  refine ⟨inv.length_cells, ?_, ?_, by simp, ?_, ?_, inv.answered_snoc (by simp)⟩
  · rw [written_snoc]
    exact inv.length_written
  · rw [seqTicks_snoc, inv.version]
    exact Nat.mod_add_mod _ _ _
  · rintro w ⟨rfl⟩
    rw [seqTicks_snoc, written_snoc]
    refine ⟨by simp only [SeqEvent.ticks]; omega, fits, fun i outside => ?_⟩
    dsimp only [SeqEvent.write?]
    rw [SeqLock.overwrite_getElem?_ge (by simpa using outside), cells]
  · intro r reads
    obtain ⟨length, seen, -⟩ := inv.reading r reads
    refine ⟨length, ?_, ?_⟩
    · rw [seen, seqTicks_snoc, ticksSince_snoc, Nat.add_sub_add_right]
    · intro fresh
      rw [ticksSince_snoc] at fresh
      simp [SeqEvent.ticks] at fresh

theorem store (inv : SeqInv n M init s log) {w : SeqWriter α} (writes : s.writer = some w) {i : Nat} {a : α}
    (cell : w.data[i]? = some a) :
    SeqInv n M init { s with cells := s.cells.set i a, writer := some { w with todo := w.todo.filter (· ≠ i) } }
      log := by
  obtain ⟨odd, fits, done⟩ := inv.writing w writes
  obtain ⟨inside, -⟩ := List.getElem?_eq_some_iff.mp cell
  refine ⟨by rw [List.length_set, inv.length_cells], inv.length_written, inv.version, by simp, ?_, ?_, inv.answered⟩
  · rintro v ⟨rfl⟩
    refine ⟨odd, fits, fun j left => ?_⟩
    dsimp only at left ⊢
    by_cases same : i = j
    · subst same
      rw [SeqLock.overwrite_getElem?_lt inside, List.getElem?_set_self (by rw [inv.length_cells]; omega), cell]
    · rw [List.getElem?_set_ne same]
      refine done j fun member => left (List.mem_filter.mpr ⟨member, ?_⟩)
      simpa using fun h : j = i => same h.symm
  · intro r reads
    obtain ⟨length, seen, -⟩ := inv.reading r reads
    exact ⟨length, seen, fun _ even => absurd even (by omega)⟩

theorem endWrite (inv : SeqInv n M init s log) {w : SeqWriter α} (writes : s.writer = some w) (done : w.todo = []) :
    SeqInv n M init { s with version := (s.version + 1) % M, writer := none } (log ++ [.wrote w.data]) := by
  obtain ⟨odd, fits, stored⟩ := inv.writing w writes
  have cells : s.cells = SeqLock.overwrite (written init log) w.data :=
    List.ext_getElem? fun i => stored i (by simp [done])
  refine ⟨inv.length_cells, ?_, ?_, ?_, by simp, ?_, inv.answered_snoc (by simp)⟩
  · rw [written_snoc]
    exact (congrArg List.length cells).symm.trans inv.length_cells
  · rw [seqTicks_snoc, inv.version]
    exact Nat.mod_add_mod _ _ _
  · intro _
    rw [seqTicks_snoc, written_snoc]
    exact ⟨by simp only [SeqEvent.ticks]; omega, cells⟩
  · intro r reads
    obtain ⟨length, seen, -⟩ := inv.reading r reads
    refine ⟨length, ?_, ?_⟩
    · rw [seen, seqTicks_snoc, ticksSince_snoc, Nat.add_sub_add_right]
    · intro fresh
      rw [ticksSince_snoc] at fresh
      simp [SeqEvent.ticks] at fresh

theorem load (inv : SeqInv n M init s log) {r : SeqReader α} (reads : s.reader = some r) (i : Nat) :
    SeqInv n M init { s with reader := some { r with got := r.got.set i s.cells[i]?, todo := r.todo.filter (· ≠ i) } }
      log := by
  obtain ⟨length, seen, copied⟩ := inv.reading r reads
  refine ⟨inv.length_cells, inv.length_written, inv.version, inv.resting, inv.writing, ?_, inv.answered⟩
  rintro q ⟨rfl⟩
  refine ⟨by rw [List.length_set, length], seen, fun fresh even j inside left => ?_⟩
  dsimp only at left ⊢
  by_cases same : i = j
  · subst same
    rw [List.getElem?_set_self (by omega)]
  · rw [List.getElem?_set_ne same]
    refine copied fresh even j inside fun member => left (List.mem_filter.mpr ⟨member, ?_⟩)
    simpa using fun h : j = i => same h.symm

/-- Two looks at one even number in time: nothing was written between them. -/
theorem whole (inv : SeqInv n M init s log) (even : M % 2 = 0) {r : SeqReader α} (reads : s.reader = some r)
    (done : r.todo = []) (same : r.seen = s.version) (settled : r.seen % 2 = 0) (inTime : ticksSince log < M) :
    r.got = (written init log).map some := by
  obtain ⟨length, seen, copied⟩ := inv.reading r reads
  have before := ticksSince_le log
  have none_since : ticksSince log = 0 := by
    have wraps : (seqTicks log - ticksSince log) % M = seqTicks log % M := by
      rw [← seen, same, inv.version]
    have apart : (seqTicks log - (seqTicks log - ticksSince log)) % M = 0 :=
      Nat.sub_mod_eq_zero_of_mod_eq wraps.symm
    rwa [Nat.sub_sub_self before, Nat.mod_eq_of_lt inTime] at apart
  have ticks_even : seqTicks log % 2 = 0 := by
    rw [same, inv.version, Nat.mod_mod_of_dvd _ (Nat.dvd_of_mod_eq_zero even)] at settled
    exact settled
  have idle : s.writer = none := by
    cases writes : s.writer with
    | none => rfl
    | some w =>
      have odd := (inv.writing w writes).1
      omega
  rw [← (inv.resting idle).2]
  refine List.ext_getElem? fun i => ?_
  by_cases inside : i < n
  · rw [copied none_since ticks_even i inside (by simp [done]), List.getElem?_map,
      List.getElem?_eq_getElem (by rw [inv.length_cells]; exact inside)]
    rfl
  · rw [List.getElem?_eq_none (by omega), List.getElem?_eq_none (by rw [List.length_map, inv.length_cells]; omega)]

/-- The reader changes, and nothing is counted or written. -/
theorem look (inv : SeqInv n M init s log) {e : SeqEvent α} {reader : Option (SeqReader α)} (silent : e.ticks = 0)
    (no_write : e.write? = none) (right : ∀ out, e = .got out → out = (written init log).map some)
    (reading : ∀ r ∈ reader, r.got.length = n ∧ r.seen = (seqTicks log - ticksSince (log ++ [e])) % M ∧
      ∀ i < n, i ∈ r.todo) :
    SeqInv n M init { s with reader := reader } (log ++ [e]) := by
  have ticks : seqTicks (log ++ [e]) = seqTicks log := by rw [seqTicks_snoc, silent, Nat.add_zero]
  have cells : written init (log ++ [e]) = written init log := by rw [written_snoc, no_write]
  refine ⟨inv.length_cells, ?_, ?_, ?_, ?_, ?_, inv.answered_snoc right⟩
  · rw [cells]
    exact inv.length_written
  · rw [ticks]
    exact inv.version
  · rw [ticks, cells]
    exact inv.resting
  · rw [ticks, cells]
    exact inv.writing
  · intro r reads
    obtain ⟨length, seen, all⟩ := reading r reads
    rw [ticks]
    exact ⟨length, seen, fun _ _ i inside left => absurd (all i inside) left⟩

theorem beginRead (inv : SeqInv n M init s log) :
    SeqInv n M init
      { s with reader := some ⟨s.version, List.replicate s.cells.length none, List.range s.cells.length⟩ }
      (log ++ [.started]) := by
  refine inv.look rfl rfl (by simp) ?_
  rintro r ⟨rfl⟩
  refine ⟨by rw [List.length_replicate, inv.length_cells], ?_, fun i inside => ?_⟩
  · rw [ticksSince_snoc, inv.version]
    rfl
  · rw [inv.length_cells]
    exact List.mem_range.mpr inside

/-- A write must fit into the cells. -/
def Fits (n : Nat) (_ : SeqLock α) (op : SeqOp α) : Prop := ∀ data, op = .beginWrite data → data.length ≤ n

theorem step (even : M % 2 = 0) (inv : SeqInv n M init s log) {op : SeqOp α} (fits : Fits n s op)
    (inTime : InTime M (log ++ (SeqLock.step M s op).2)) :
    SeqInv n M init (SeqLock.step M s op).1 (log ++ (SeqLock.step M s op).2) := by
  have stay : SeqInv n M init s (log ++ []) := by rwa [List.append_nil]
  cases op with
  | beginWrite data =>
    cases writes : s.writer with
    | none =>
      simp only [SeqLock.step, writes]
      exact inv.beginWrite writes (fits data rfl)
    | some w =>
      simp only [SeqLock.step, writes]
      exact stay
  | store i =>
    simp only [SeqLock.step]
    split
    · exact stay
    · rename_i w writes
      split
      · exact stay
      · rename_i a cell
        split
        · rw [List.append_nil]
          exact inv.store writes cell
        · exact stay
  | endWrite =>
    simp only [SeqLock.step]
    split
    · exact stay
    · rename_i w writes
      split
      · rename_i done
        exact inv.endWrite writes done
      · exact stay
  | beginRead =>
    simp only [SeqLock.step]
    split
    · exact inv.beginRead
    · exact stay
  | load i =>
    simp only [SeqLock.step]
    split
    · exact stay
    · rename_i r reads
      rw [List.append_nil]
      exact inv.load reads i
  | endRead =>
    simp only [SeqLock.step] at inTime ⊢
    split at inTime
    · exact stay
    · rename_i r reads
      split at inTime
      · rename_i done
        split at inTime
        · rename_i same
          rw [if_pos done, if_pos same]
          have whole := inv.whole even reads done same.1 same.2 (inTime log r.got [] rfl)
          refine inv.look rfl rfl ?_ (by simp)
          rintro out ⟨rfl⟩
          exact whole
        · rename_i changed
          rw [if_pos done, if_neg changed]
          exact inv.look rfl rfl (by simp) (by simp)
      · rename_i left
        rw [if_neg left]
        exact stay

end SeqInv

/-- **What a read returns.** It is what the writes completed before it have made of the cells. -/
theorem SeqLock.reads {α : Type} {n M : Nat} (even : M % 2 = 0) {init : List α} (length : init.length = n)
    (ops : List (SeqOp α)) (fits : (seqLock α M).Along (SeqInv.Fits n) { cells := init } ops)
    (inTime : InTime M ((seqLock α M).trace { cells := init } ops)) {pre post : List (SeqEvent α)}
    {out : List (Option α)} (split : (seqLock α M).trace { cells := init } ops = pre ++ .got out :: post) :
    out = (written init pre).map some := by
  have inv : SeqInv n M init ((seqLock α M).exec { cells := init } ops) ((seqLock α M).trace { cells := init } ops) :=
    (seqLock α M).run_rule (fun _ _ => InTime.left) (SeqInv.start length)
      (fun _ _ _ inv fits inTime => inv.step even fits inTime) ops fits inTime
  exact inv.answered pre out post split

end FloridUsb.Lib
