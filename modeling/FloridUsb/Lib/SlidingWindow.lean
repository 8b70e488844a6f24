import Mathlib.Data.List.Nodup
import Mathlib.Data.List.Induction

/-!
# Sliding windows over a history

`recent n h` is the last `n` entries of a history. A history is *deduplicated* over a
window of `n` when no entry repeats one of the `n` before it; a filter that remembers the
last `n` accepted values accepts exactly such histories. `repeat_needs_window` is the
guarantee of a bounded memory: between two acceptances of a value lie `n` others.
-/

namespace FloridUsb.Lib
set_option autoImplicit false

variable {α : Type}

/-- The last `n` entries. -/
def recent (n : Nat) (h : List α) : List α := h.drop (h.length - n)

/-- One more entry pushes the oldest of a full window out. -/
theorem recent_snoc {n : Nat} {h : List α} (x : α) (full : n ≤ h.length) (pos : 0 < n) :
    recent n (h ++ [x]) = (recent n h).tail ++ [x] := by
  rw [recent, recent, List.tail_drop, List.drop_append_of_le_length (by simp; omega), List.length_append,
    List.length_singleton, show h.length + 1 - n = h.length - n + 1 by omega]

/-- What is recent in two parts: all that is recent in the second, and what room it leaves the first. -/
theorem recent_append_eq (n : Nat) (a b : List α) :
    recent n (a ++ b) = a.drop (a.length + b.length - n) ++ recent n b := by
  rw [recent, List.drop_append, List.length_append, recent,
    show a.length + b.length - n - a.length = b.length - n by omega]

theorem recent_append {n : Nat} {a b : List α} (h : n ≤ b.length) : recent n (a ++ b) = recent n b := by
  rw [recent_append_eq, List.drop_eq_nil_of_le (by omega), List.nil_append]

theorem mem_recent_append_left {n : Nat} {a b : List α} {x : α} (member : x ∈ recent n b) : x ∈ recent n (a ++ b) := by
  rw [recent_append_eq]
  exact List.mem_append_right _ member

theorem mem_recent_of_append {n : Nat} {a b : List α} {x : α} (member : x ∈ recent n (a ++ b)) :
    x ∈ a ∨ x ∈ recent n b := by
  rw [recent_append_eq] at member
  exact (List.mem_append.mp member).imp_left List.mem_of_mem_drop

theorem recent_of_short {n : Nat} {h : List α} (short : h.length ≤ n) : recent n h = h := by
  rw [recent, show h.length - n = 0 by omega, List.drop_zero]

theorem mem_recent_append {n : Nat} {h w : List α} {x : α} (bound : w.length ≤ n) (member : x ∈ w) :
    x ∈ recent n (h ++ w) := by
  apply mem_recent_append_left
  rwa [recent_of_short bound]

theorem length_recent_le (n : Nat) (h : List α) : (recent n h).length ≤ n := by
  rw [recent, List.length_drop]
  omega

theorem length_recent {n : Nat} {h : List α} (full : n ≤ h.length) : (recent n h).length = n := by
  rw [recent, List.length_drop]
  omega

/-- Where a split of `h ++ [x]` falls: at the last entry, or inside `h`. -/
theorem snoc_eq_append_cons {h pre post : List α} {x y : α} (split : h ++ [x] = pre ++ y :: post) :
    (pre = h ∧ y = x ∧ post = []) ∨ ∃ front, post = front ++ [x] ∧ h = pre ++ y :: front := by
  rcases List.eq_nil_or_concat post with rfl | ⟨front, last, rfl⟩
  · obtain ⟨left, right⟩ := List.append_inj' split rfl
    exact .inl ⟨left.symm, (List.singleton_inj.mp right).symm, rfl⟩
  · have whole : h ++ [x] = (pre ++ y :: front) ++ [last] := by simpa using split
    obtain ⟨left, right⟩ := List.append_inj' whole rfl
    obtain rfl := List.singleton_inj.mp right
    exact .inr ⟨front, by simp, left⟩

/-- No entry repeats one of the `n` entries before it. -/
def Deduplicated (n : Nat) (h : List α) : Prop :=
  ∀ pre x post, h = pre ++ x :: post → x ∉ recent n pre

theorem Deduplicated.nil (n : Nat) : Deduplicated n ([] : List α) := by
  intro pre x post split
  cases pre <;> cases split

theorem Deduplicated.snoc {n : Nat} {h : List α} {x : α} (dedup : Deduplicated n h) (new : x ∉ recent n h) :
    Deduplicated n (h ++ [x]) := by
  intro pre y post split
  rcases snoc_eq_append_cons split with ⟨rfl, rfl, -⟩ | ⟨front, -, rfl⟩
  · exact new
  · exact dedup pre y front rfl

theorem Deduplicated.left {n : Nat} {a b : List α} (dedup : Deduplicated n (a ++ b)) : Deduplicated n a := by
  intro pre x post split
  exact dedup pre x (post ++ b) (by rw [split]; simp)

/-- Entries within one window are pairwise distinct. -/
theorem Deduplicated.window_nodup {n : Nat} {pre w post : List α} (dedup : Deduplicated n (pre ++ (w ++ post)))
    (bound : w.length ≤ n + 1) : w.Nodup := by
  induction w using List.reverseRecOn generalizing post with
  | nil => exact List.nodup_nil
  | append_singleton w x ih =>
    rw [List.length_append, List.length_singleton] at bound
    have shorter : Deduplicated n (pre ++ (w ++ x :: post)) := by simpa using dedup
    have earlier : w.Nodup := ih shorter (by omega)
    have fresh : x ∉ w := by
      intro member
      exact dedup (pre ++ w) x post (by simp) (mem_recent_append (by omega) member)
    rw [List.nodup_append]
    refine ⟨earlier, List.nodup_singleton x, fun a ha b hb he => ?_⟩
    obtain rfl := List.mem_singleton.mp hb
    exact fresh (he ▸ ha)

/-- What a filter remembers is pairwise distinct. -/
theorem Deduplicated.recent_nodup {n : Nat} {h : List α} (dedup : Deduplicated n h) : (recent n h).Nodup := by
  have split : h.take (h.length - n) ++ (recent n h ++ []) = h := by
    rw [List.append_nil, recent, List.take_append_drop]
  rw [← split] at dedup
  exact dedup.window_nodup (Nat.le_succ_of_le (length_recent_le n h))

/-- **A repetition needs a whole window.** Between two entries `x` lie at least `n`
entries, the first `n` of them pairwise distinct and none of them `x`. -/
theorem Deduplicated.repeat_needs_window {n : Nat} {pre mid post : List α} {x : α}
    (dedup : Deduplicated n (pre ++ x :: (mid ++ x :: post))) :
    n ≤ mid.length ∧ (mid.take n).Nodup ∧ x ∉ mid.take n := by
  have long : n ≤ mid.length := by
    apply Nat.le_of_not_lt
    intro short
    refine dedup (pre ++ x :: mid) x post (by simp) (mem_recent_append ?_ List.mem_cons_self)
    rw [List.length_cons]
    omega
  have window : (x :: mid.take n).Nodup := by
    have split : pre ++ x :: (mid ++ x :: post) = pre ++ ((x :: mid.take n) ++ (mid.drop n ++ x :: post)) := by
      rw [List.cons_append, ← List.append_assoc (mid.take n), List.take_append_drop]
    rw [split] at dedup
    exact dedup.window_nodup (by rw [List.length_cons, List.length_take]; omega)
  exact ⟨long, (List.nodup_cons.mp window).2, (List.nodup_cons.mp window).1⟩

end FloridUsb.Lib
