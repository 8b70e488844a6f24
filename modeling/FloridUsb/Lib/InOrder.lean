import Mathlib.Data.List.Nodup

/-!
# Lists in the order of another list

The entries of a list come in the order of another list, of which some may be missing and
some may be repeated in a row. This is what a queue and a channel that lose and repeat, but
never reorder, make of what is put into them. Nothing comes back once something later has
come (`no_return`).
-/

namespace FloridUsb.Lib
set_option autoImplicit false

variable {α : Type} [DecidableEq α]

/-- Every entry of `xs` occurs in `order`, and they stand in that order. -/
structure InOrder (order xs : List α) : Prop where
  known : xs ⊆ order
  sorted : xs.Pairwise fun a b => order.idxOf a ≤ order.idxOf b

namespace InOrder

variable {order xs : List α}

theorem nil (order : List α) : InOrder order [] where
  known := List.nil_subset order
  sorted := List.Pairwise.nil

/-- Entries may be lost. -/
theorem sublist {ys : List α} (o : InOrder order xs) (lost : ys.Sublist xs) : InOrder order ys where
  known := fun _ member => o.known (lost.subset member)
  sorted := o.sorted.sublist lost

/-- An entry may be repeated before the next one. -/
theorem repeated {a b : List α} {x : α} (o : InOrder order (a ++ x :: b)) : InOrder order (a ++ x :: x :: b) := by
  constructor
  · intro y member
    apply o.known
    simpa using member
  · have sorted := o.sorted
    rw [List.pairwise_append, List.pairwise_cons] at sorted
    obtain ⟨front, ⟨here, back⟩, across⟩ := sorted
    rw [List.pairwise_append, List.pairwise_cons, List.pairwise_cons]
    refine ⟨front, ⟨fun y member => ?_, here, back⟩, fun y before z after => ?_⟩
    · rcases List.mem_cons.mp member with rfl | later
      · exact Nat.le_refl _
      · exact here y later
    · apply across y before
      simpa using after

/-- The order may grow at its end. -/
theorem extend (o : InOrder order xs) (more : List α) : InOrder (order ++ more) xs := by
  constructor
  · exact fun x member => List.mem_append_left _ (o.known member)
  · apply o.sorted.imp_of_mem
    intro a b ha hb le
    rw [List.idxOf_append_of_mem (o.known ha), List.idxOf_append_of_mem (o.known hb)]
    exact le

/-- The last entry of the order may come again and again. -/
theorem snoc (o : InOrder order xs) {x : α} (nodup : order.Nodup) (last : order.getLast? = some x) :
    InOrder order (xs ++ [x]) := by
  obtain ⟨front, rfl⟩ := List.getLast?_eq_some_iff.mp last
  have fresh : x ∉ front := by
    rw [List.nodup_append] at nodup
    exact fun member => nodup.2.2 x member x List.mem_cons_self rfl
  have top : (front ++ [x]).idxOf x = front.length := by
    rw [List.idxOf_append_of_notMem fresh, List.idxOf_cons_self]
    omega
  constructor
  · intro y member
    rcases List.mem_append.mp member with old | new
    · exact o.known old
    · rw [List.mem_singleton.mp new]
      simp
  · rw [List.pairwise_append]
    refine ⟨o.sorted, List.pairwise_singleton _ _, fun y member z same => ?_⟩
    rw [List.mem_singleton.mp same, top]
    have := List.idxOf_lt_length_of_mem (o.known member)
    rw [List.length_append, List.length_singleton] at this
    omega

/-- What has come of `sent` is followed by what is sent next. -/
theorem feed {sent more new : List α} (o : InOrder order xs) (within : xs ⊆ sent)
    (next : InOrder (order ++ more) (sent ++ new)) : InOrder (order ++ more) (xs ++ new) := by
  have grown := o.extend more
  have sorted := List.pairwise_append.mp next.sorted
  constructor
  · intro x member
    rcases List.mem_append.mp member with old | later
    · exact grown.known old
    · exact next.known (List.mem_append_right _ later)
  · rw [List.pairwise_append]
    exact ⟨grown.sorted, sorted.2.1, fun a before b after => sorted.2.2 a (within before) b after⟩

/-- **Nothing comes back** after something else has come. -/
theorem no_return (o : InOrder order xs) {a b : α} (back : [a, b, a].Sublist xs) : b = a := by
  have sorted := o.sorted.sublist back
  have there : order.idxOf a ≤ order.idxOf b := (List.pairwise_cons.mp sorted).1 b List.mem_cons_self
  have again : order.idxOf b ≤ order.idxOf a :=
    (List.pairwise_cons.mp (List.pairwise_cons.mp sorted).2).1 a List.mem_cons_self
  have known : b ∈ order := o.known (back.subset (by simp))
  exact (List.idxOf_inj known).mp (Nat.le_antisymm again there)

end InOrder

end FloridUsb.Lib
