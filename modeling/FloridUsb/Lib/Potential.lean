import FloridUsb.Lib.Machine

/-!
# Potentials

A potential bounds how often something can happen in a run: each step that does it costs at
least one, and only what the log tells of can raise the potential again.
-/

namespace FloridUsb.Lib
set_option autoImplicit false

namespace Machine

variable {σ ο ε : Type} (M : Machine σ ο ε)

/-- How many operations of a run meet `P` in the state they find. -/
def countAlong (P : σ → ο → Bool) (s : σ) : List ο → Nat
  | [] => 0
  | o :: ops => (if P s o then 1 else 0) + countAlong P (M.step s o).1 ops

/-- **The potential rule.** Each step that meets `P` costs one of `c`, and gains what it logs. -/
theorem potential {P : σ → ο → Bool} {I : σ → Prop} {c : σ → Nat} {g : List ε → Nat}
    (gain_append : ∀ a b, g (a ++ b) = g a + g b) (keeps : ∀ s o, I s → I (M.step s o).1)
    (pays : ∀ s o, I s → c (M.step s o).1 + (if P s o then 1 else 0) ≤ c s + g (M.step s o).2)
    {s : σ} (start : I s) (ops : List ο) :
    c (M.exec s ops) + M.countAlong P s ops ≤ c s + g (M.trace s ops) := by
  induction ops generalizing s with
  | nil => exact Nat.le_add_right _ _
  | cons o ops ih =>
    have first := pays s o start
    have rest := ih (keeps s o start)
    simp only [exec, countAlong, trace, gain_append]
    omega

end Machine

end FloridUsb.Lib
