import Mathlib.Data.List.Induction

/-!
# Machines that log what they do

A machine takes an operation in a state, moves to a new state and logs events. `exec` is
the state after a list of operations and `trace` the events of the whole run, in order.
`run_rule` is the one induction over runs: an invariant of the state and of the log so far,
which may assume a condition on each operation in the state it finds, and one on the log
that every prefix of a run inherits.
-/

namespace FloridUsb.Lib
set_option autoImplicit false

/-- One step per operation: the next state and the events logged. -/
structure Machine (σ ο ε : Type) where
  step : σ → ο → σ × List ε

namespace Machine

variable {σ ο ε : Type} (M : Machine σ ο ε)

/-- The state after the operations. -/
def exec (s : σ) : List ο → σ
  | [] => s
  | o :: ops => exec (M.step s o).1 ops

/-- The events the operations log. -/
def trace (s : σ) : List ο → List ε
  | [] => []
  | o :: ops => (M.step s o).2 ++ trace (M.step s o).1 ops

@[simp] theorem exec_nil (s : σ) : M.exec s [] = s := rfl

@[simp] theorem trace_nil (s : σ) : M.trace s [] = [] := rfl

theorem exec_append (s : σ) (a b : List ο) : M.exec s (a ++ b) = M.exec (M.exec s a) b := by
  induction a generalizing s with
  | nil => rfl
  | cons o a ih => exact ih _

theorem trace_append (s : σ) (a b : List ο) :
    M.trace s (a ++ b) = M.trace s a ++ M.trace (M.exec s a) b := by
  induction a generalizing s with
  | nil => rfl
  | cons o a ih => simp only [List.cons_append, trace, exec, ih, List.append_assoc]

theorem exec_snoc (s : σ) (ops : List ο) (o : ο) : M.exec s (ops ++ [o]) = (M.step (M.exec s ops) o).1 :=
  M.exec_append s ops [o]

theorem trace_snoc (s : σ) (ops : List ο) (o : ο) :
    M.trace s (ops ++ [o]) = M.trace s ops ++ (M.step (M.exec s ops) o).2 := by
  rw [M.trace_append]
  simp [trace]

/-- Every operation meets the condition in the state it finds. -/
def Along (C : σ → ο → Prop) (s : σ) : List ο → Prop
  | [] => True
  | o :: ops => C s o ∧ Along C (M.step s o).1 ops

theorem along_append (C : σ → ο → Prop) (s : σ) (a b : List ο) :
    M.Along C s (a ++ b) ↔ M.Along C s a ∧ M.Along C (M.exec s a) b := by
  induction a generalizing s with
  | nil => exact ⟨fun h => ⟨trivial, h⟩, fun h => h.2⟩
  | cons o a ih =>
    simp only [List.cons_append, Along, exec, ih, and_assoc]

/-- The condition where an operation of a run stands. -/
theorem Along.at_split {C : σ → ο → Prop} {s : σ} {pre post : List ο} {o : ο}
    (along : M.Along C s (pre ++ o :: post)) : C (M.exec s pre) o :=
  ((M.along_append C s pre (o :: post)).mp along).2.1

/-- A condition holds along a run if and only if it holds wherever an operation stands. -/
theorem along_iff_at_split {C : σ → ο → Prop} {s : σ} {ops : List ο} :
    M.Along C s ops ↔ ∀ pre o post, ops = pre ++ o :: post → C (M.exec s pre) o := by
  constructor
  · rintro along pre o post rfl
    exact Along.at_split M along
  · intro everywhere
    induction ops generalizing s with
    | nil => trivial
    | cons o ops ih =>
      constructor
      · exact everywhere [] o ops rfl
      · apply ih
        rintro pre p post rfl
        exact everywhere (o :: pre) p post rfl

/-- **The run rule.** `I` holds at the start and every operation that meets `C` keeps it, as
long as the log satisfies the prefix-closed condition `G`. -/
theorem run_rule {C : σ → ο → Prop} {G : List ε → Prop} {I : σ → List ε → Prop} {s : σ}
    (closed : ∀ h ev, G (h ++ ev) → G h) (start : I s [])
    (keeps : ∀ t h o, I t h → C t o → G (h ++ (M.step t o).2) → I (M.step t o).1 (h ++ (M.step t o).2))
    (ops : List ο) (along : M.Along C s ops) (good : G (M.trace s ops)) : I (M.exec s ops) (M.trace s ops) := by
  induction ops using List.reverseRecOn with
  | nil => exact start
  | append_singleton ops o ih =>
    rw [M.trace_snoc] at good
    rw [M.exec_snoc, M.trace_snoc]
    have split := (M.along_append C s ops [o]).mp along
    exact keeps _ _ o (ih split.1 (closed _ _ good)) split.2.1 good

theorem along_of {P : ο → Prop} (s : σ) {ops : List ο} (kind : ∀ o ∈ ops, P o) : M.Along (fun _ => P) s ops := by
  induction ops generalizing s with
  | nil => trivial
  | cons o ops ih =>
    exact ⟨kind o List.mem_cons_self, ih _ fun p hp => kind p (List.mem_cons_of_mem _ hp)⟩

/-- The run rule for any operations, under a condition on the log. -/
theorem run_invariant {G : List ε → Prop} {I : σ → List ε → Prop} {s : σ}
    (closed : ∀ h ev, G (h ++ ev) → G h) (start : I s [])
    (keeps : ∀ t h o, I t h → G (h ++ (M.step t o).2) → I (M.step t o).1 (h ++ (M.step t o).2))
    (ops : List ο) (good : G (M.trace s ops)) : I (M.exec s ops) (M.trace s ops) :=
  M.run_rule closed start (fun t h o i (_ : True) g => keeps t h o i g) ops (M.along_of s fun _ _ => trivial) good

/-- The run rule for operations of a kind. -/
theorem run_invariant_of {P : ο → Prop} {I : σ → List ε → Prop} {s : σ} (start : I s [])
    (keeps : ∀ t h o, P o → I t h → I (M.step t o).1 (h ++ (M.step t o).2)) (ops : List ο)
    (kind : ∀ o ∈ ops, P o) : I (M.exec s ops) (M.trace s ops) :=
  M.run_rule (G := fun _ => True) (fun _ _ _ => trivial) start (fun t h o i p _ => keeps t h o p i) ops
    (M.along_of s kind) trivial

/-- The run rule for all operations. -/
theorem run_invariant_always {I : σ → List ε → Prop} {s : σ} (start : I s [])
    (keeps : ∀ t h o, I t h → I (M.step t o).1 (h ++ (M.step t o).2)) (ops : List ο) :
    I (M.exec s ops) (M.trace s ops) :=
  M.run_invariant_of start (fun t h o (_ : True) i => keeps t h o i) ops fun _ _ => trivial

end Machine

end FloridUsb.Lib
