import FloridUsb.Lib.Machine

/-!
# Forward simulation

A machine simulates an abstract one if each of its steps is answered, on related states, by
operations of the abstract machine that log what can be seen of the step. Its runs are then
runs of the abstract machine (`Simulates.run`), and what holds of every abstract run holds of
what can be seen of a concrete one.
-/

namespace FloridUsb.Lib
set_option autoImplicit false

section Simulation

variable {σ τ ο π ε φ : Type}

/-- A step of `M` that meets `C` is answered by operations of `N` that meet `D`. -/
structure Simulates (M : Machine σ ο ε) (N : Machine τ π φ) (R : σ → τ → Prop) (C : σ → ο → Prop) (D : τ → π → Prop)
    (see : ε → Option φ) : Prop where
  step : ∀ s t o, R s t → C s o → ∃ ps, N.Along D t ps ∧ N.trace t ps = (M.step s o).2.filterMap see ∧
    R (M.step s o).1 (N.exec t ps)

/-- **The simulation rule.** -/
theorem Simulates.run {M : Machine σ ο ε} {N : Machine τ π φ} {R : σ → τ → Prop} {C : σ → ο → Prop} {D : τ → π → Prop}
    {see : ε → Option φ} (simulates : Simulates M N R C D see) {s : σ} {t : τ} (start : R s t) (ops : List ο)
    (along : M.Along C s ops) :
    ∃ ps, N.Along D t ps ∧ N.trace t ps = (M.trace s ops).filterMap see ∧ R (M.exec s ops) (N.exec t ps) := by
  induction ops generalizing s t with
  | nil => exact ⟨[], trivial, rfl, start⟩
  | cons o ops ih =>
    obtain ⟨ps, first, seen, related⟩ := simulates.step s t o start along.1
    obtain ⟨qs, second, rest, done⟩ := ih related along.2
    refine ⟨ps ++ qs, (N.along_append D t ps qs).mpr ⟨first, second⟩, ?_, ?_⟩
    · rw [N.trace_append, seen, rest, Machine.trace, List.filterMap_append]
    · rw [N.exec_append]
      exact done

/-- The machine that says what `M` does in other words. -/
def Machine.renamed (M : Machine σ ο ε) (f : ε → φ) : Machine σ ο φ where
  step s o := ((M.step s o).1, (M.step s o).2.map f)

theorem Machine.renamed_exec (M : Machine σ ο ε) (f : ε → φ) (s : σ) (ops : List ο) :
    (M.renamed f).exec s ops = M.exec s ops := by
  induction ops generalizing s with
  | nil => rfl
  | cons o ops ih => exact ih _

theorem Machine.renamed_trace (M : Machine σ ο ε) (f : ε → φ) (s : σ) (ops : List ο) :
    (M.renamed f).trace s ops = (M.trace s ops).map f := by
  induction ops generalizing s with
  | nil => rfl
  | cons o ops ih =>
    rw [Machine.trace, Machine.trace, List.map_append, ← ih]
    rfl

/-- The machine with the log of its run in its state. -/
def Machine.recorded (M : Machine σ ο ε) : Machine (σ × List ε) ο ε where
  step s o := (((M.step s.1 o).1, s.2 ++ (M.step s.1 o).2), (M.step s.1 o).2)

theorem Machine.recorded_exec (M : Machine σ ο ε) (s : σ) (log : List ε) (ops : List ο) :
    M.recorded.exec (s, log) ops = (M.exec s ops, log ++ M.trace s ops) := by
  induction ops generalizing s log with
  | nil => rw [exec_nil, exec_nil, trace_nil, List.append_nil]
  | cons o ops ih =>
    rw [exec, trace, ← List.append_assoc]
    exact ih _ _

theorem Machine.recorded_trace (M : Machine σ ο ε) (s : σ) (log : List ε) (ops : List ο) :
    M.recorded.trace (s, log) ops = M.trace s ops := by
  induction ops generalizing s log with
  | nil => rfl
  | cons o ops ih => exact congrArg _ (ih _ _)

end Simulation

end FloridUsb.Lib
