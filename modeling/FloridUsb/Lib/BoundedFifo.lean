import FloridUsb.Lib.Machine
import Mathlib.Data.List.Infix

/-!
# Bounded FIFO queues

A queue of at most `bound` entries takes whole chunks at its back and gives up entries at its
front. What has been taken out of it, followed by what is still in it, is what was put in
(`FifoRun.history`). A machine behaves like such a queue if each of its steps does
(`Machine.refines_fifo`); the queue then says what the machine can have given out.
-/

namespace FloridUsb.Lib
set_option autoImplicit false

/-- An operation that takes effect. -/
inductive FifoOp (α : Type)
  | push (chunk : List α)
  | pop (out : List α)

section Queue

variable {α : Type} {bound : Nat}

def FifoOp.pushed : FifoOp α → List α
  | .push chunk => chunk
  | .pop _ => []

def FifoOp.popped : FifoOp α → List α
  | .push _ => []
  | .pop out => out

inductive FifoStep (bound : Nat) : List α → FifoOp α → List α → Prop
  | push {q chunk : List α} (room : q.length + chunk.length ≤ bound) : FifoStep bound q (.push chunk) (q ++ chunk)
  | pop {q out : List α} : FifoStep bound (out ++ q) (.pop out) q

/-- Operations one after the other, from the queue `a`. -/
inductive FifoRun (bound : Nat) (a : List α) : List (FifoOp α) → List α → Prop
  | nil : FifoRun bound a [] a
  | snoc {b c : List α} {ops : List (FifoOp α)} {op : FifoOp α} (run : FifoRun bound a ops b)
      (step : FifoStep bound b op c) : FifoRun bound a (ops ++ [op]) c

namespace FifoRun

variable {a b c : List α} {ops more : List (FifoOp α)}

theorem single {op : FifoOp α} (step : FifoStep bound a op b) : FifoRun bound a [op] b := nil.snoc step

theorem append (first : FifoRun bound a ops b) (second : FifoRun bound b more c) : FifoRun bound a (ops ++ more) c := by
  induction second with
  | nil => rwa [List.append_nil]
  | snoc _ step ih =>
    rw [← List.append_assoc]
    exact ih.snoc step

/-- **First in, first out.** -/
theorem history (run : FifoRun bound a ops b) :
    a ++ ops.flatMap FifoOp.pushed = ops.flatMap FifoOp.popped ++ b := by
  induction run with
  | nil => simp
  | snoc _ step ih =>
    rw [List.flatMap_append, List.flatMap_append, ← List.append_assoc, ih]
    cases step with
    | push room => simp [FifoOp.pushed, FifoOp.popped]
    | pop => simp [FifoOp.pushed, FifoOp.popped]

theorem length_le (run : FifoRun bound a ops b) (start : a.length ≤ bound) : b.length ≤ bound := by
  induction run with
  | nil => exact start
  | snoc _ step ih =>
    have before := ih
    cases step with
    | push room => rwa [List.length_append]
    | pop =>
      rw [List.length_append] at before
      omega

/-- What an empty queue has given up by then is a first part of what it took. -/
theorem popped_prefix (run : FifoRun bound [] ops b) : ops.flatMap FifoOp.popped <+: ops.flatMap FifoOp.pushed :=
  ⟨b, run.history.symm⟩

end FifoRun

end Queue

/-- **The refinement rule.** An invariant machine whose every step, by an operation of a kind, does
to `queue` what the events it logs say is a bounded queue over whole runs of this kind. -/
theorem Machine.refines_fifo_of {σ ο ε α : Type} (M : Machine σ ο ε) {P : ο → Prop} {bound : Nat} {Inv : σ → Prop}
    {queue : σ → List α} {effect : ε → Option (FifoOp α)} {s : σ} (start : Inv s)
    (keeps : ∀ t o, P o → Inv t → Inv (M.step t o).1 ∧
      FifoRun bound (queue t) ((M.step t o).2.filterMap effect) (queue (M.step t o).1))
    (ops : List ο) (kind : ∀ o ∈ ops, P o) :
    Inv (M.exec s ops) ∧ FifoRun bound (queue s) ((M.trace s ops).filterMap effect) (queue (M.exec s ops)) := by
  apply M.run_invariant_of (I := fun t log => Inv t ∧ FifoRun bound (queue s) (log.filterMap effect) (queue t))
  · exact ⟨start, FifoRun.nil⟩
  · intro t log o meets ⟨inv, run⟩
    obtain ⟨inv', step⟩ := keeps t o meets inv
    rw [List.filterMap_append]
    exact ⟨inv', run.append step⟩
  · exact kind

/-- The refinement rule for all operations. -/
theorem Machine.refines_fifo {σ ο ε α : Type} (M : Machine σ ο ε) {bound : Nat} {Inv : σ → Prop} {queue : σ → List α}
    {effect : ε → Option (FifoOp α)} {s : σ} (start : Inv s)
    (keeps : ∀ t o, Inv t → Inv (M.step t o).1 ∧
      FifoRun bound (queue t) ((M.step t o).2.filterMap effect) (queue (M.step t o).1))
    (ops : List ο) :
    Inv (M.exec s ops) ∧ FifoRun bound (queue s) ((M.trace s ops).filterMap effect) (queue (M.exec s ops)) :=
  M.refines_fifo_of (P := fun _ => True) start (fun t o _ => keeps t o) ops fun _ _ => trivial

end FloridUsb.Lib
