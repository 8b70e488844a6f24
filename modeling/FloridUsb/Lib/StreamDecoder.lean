import Mathlib.Data.List.TakeDrop

/-!
# Stream decoders and their chunking law

A stream decoder looks at the unread input and either waits for more or consumes a
non-empty prefix and emits something. Its one law is stability: a decision is not
changed by input that arrives later. `scan` is the one-pass reading of an input, and
`scan_append` says that scanning a first part, keeping what it left over, and scanning
on when the rest arrives is the scan of the whole.
-/

namespace FloridUsb.Lib
set_option autoImplicit false

/-- What a decoder says about the unread input. -/
inductive Verdict (β : Type) where
  /-- Undecided: more input is needed. -/
  | wait
  /-- The first `n` symbols are read; they stand for `out`. -/
  | read (n : Nat) (out : List β)

/-- A decision procedure on unread input that later input cannot overturn. -/
structure StreamDecoder (α β : Type) where
  verdict : List α → Verdict β
  progress : ∀ {xs n out}, verdict xs = .read n out → 0 < n ∧ n ≤ xs.length
  stable : ∀ {xs n out} (ys : List α), verdict xs = .read n out → verdict (xs ++ ys) = .read n out

namespace StreamDecoder

variable {α β : Type} (D : StreamDecoder α β)

/-- Read on until the decoder waits; `fuel` bounds the number of readings. -/
def scanFrom : Nat → List α → List β × List α
  | 0, xs => ([], xs)
  | fuel + 1, xs =>
    match D.verdict xs with
    | .wait => ([], xs)
    | .read n out => (out ++ (scanFrom fuel (xs.drop n)).1, (scanFrom fuel (xs.drop n)).2)

/-- The one-pass reading: what is emitted, and the input left unread. -/
def scan (xs : List α) : List β × List α := D.scanFrom xs.length xs

@[simp] theorem verdict_nil : D.verdict [] = .wait := by
  cases h : D.verdict [] with
  | wait => rfl
  | read n out => have := D.progress h; simp at this; omega

/-- Any fuel that covers the input gives the same reading. -/
theorem scanFrom_fuel {fuel : Nat} {xs : List α} (enough : xs.length ≤ fuel) :
    D.scanFrom fuel xs = D.scan xs := by
  suffices ∀ k fuel (xs : List α), xs.length ≤ k → xs.length ≤ fuel → D.scanFrom fuel xs = D.scanFrom k xs from
    this _ _ _ (Nat.le_refl _) enough
  intro k
  induction k with
  | zero =>
    intro fuel xs short _
    have : xs = [] := List.length_eq_zero_iff.mp (by omega)
    subst this
    cases fuel <;> simp [scanFrom]
  | succ k ih =>
    intro fuel xs short enough
    cases fuel with
    | zero =>
      have : xs = [] := List.length_eq_zero_iff.mp (by omega)
      subst this
      simp [scanFrom]
    | succ fuel =>
      cases h : D.verdict xs with
      | wait => simp only [scanFrom, h]
      | read n out =>
        have step := D.progress h
        simp only [scanFrom, h, ih fuel (xs.drop n) (by rw [List.length_drop]; omega)
          (by rw [List.length_drop]; omega)]

theorem scan_wait {xs : List α} (h : D.verdict xs = .wait) : D.scan xs = ([], xs) := by
  cases xs with
  | nil => rfl
  | cons x xs => simp only [scan, List.length_cons, scanFrom, h]

theorem scan_read {xs : List α} {n : Nat} {out : List β} (h : D.verdict xs = .read n out) :
    D.scan xs = (out ++ (D.scan (xs.drop n)).1, (D.scan (xs.drop n)).2) := by
  have step := D.progress h
  cases xs with
  | nil => simp at step; omega
  | cons x xs =>
    have rest : D.scanFrom xs.length ((x :: xs).drop n) = D.scan ((x :: xs).drop n) :=
      D.scanFrom_fuel (by simp only [List.length_drop, List.length_cons]; omega)
    simp only [scan, List.length_cons, scanFrom, h] at rest ⊢
    rw [rest]

/-- Induction along the readings of an input. -/
theorem scan_induction {motive : List α → Prop} (wait : ∀ xs, D.verdict xs = .wait → motive xs)
    (read : ∀ xs n out, D.verdict xs = .read n out → motive (xs.drop n) → motive xs) (xs : List α) :
    motive xs := by
  generalize hk : xs.length = k
  induction k using Nat.strongRecOn generalizing xs with
  | ind k ih =>
    cases h : D.verdict xs with
    | wait => exact wait xs h
    | read n out =>
      have step := D.progress h
      exact read xs n out h (ih (xs.drop n).length (by rw [List.length_drop]; omega) _ rfl)

/-- The scan stops where the decoder waits. -/
theorem scan_waits (xs : List α) : D.verdict (D.scan xs).2 = .wait := by
  induction xs using D.scan_induction with
  | wait xs h => rw [D.scan_wait h]; exact h
  | read xs n out h ih => rw [D.scan_read h]; exact ih

/-- **Scanning in two parts** is scanning the whole. -/
theorem scan_append (xs ys : List α) :
    D.scan (xs ++ ys) =
      ((D.scan xs).1 ++ (D.scan ((D.scan xs).2 ++ ys)).1, (D.scan ((D.scan xs).2 ++ ys)).2) := by
  induction xs using D.scan_induction with
  | wait xs h => rw [D.scan_wait h]; rfl
  | read xs n out h ih =>
    have step := D.progress h
    rw [D.scan_read (D.stable ys h), D.scan_read h, List.drop_append_of_le_length step.2, ih, List.append_assoc]

/-- A decided input followed by anything: its reading, then the scan of the rest. -/
theorem scan_read_append {xs : List α} {out : List β} (ys : List α)
    (h : D.verdict xs = .read xs.length out) : D.scan (xs ++ ys) = (out ++ (D.scan ys).1, (D.scan ys).2) := by
  rw [D.scan_read (D.stable ys h), List.drop_left]

/-- The scan of inputs that are each read as a whole. -/
theorem scan_flatMap {γ : Type} (enc : γ → List α) (dec : γ → List β) {items : List γ}
    (whole : ∀ i ∈ items, D.verdict (enc i) = .read (enc i).length (dec i)) :
    D.scan (items.flatMap enc) = (items.flatMap dec, []) := by
  induction items with
  | nil => rfl
  | cons i items ih =>
    rw [List.flatMap_cons, List.flatMap_cons, D.scan_read_append _ (whole i List.mem_cons_self),
      ih fun j hj => whole j (List.mem_cons_of_mem _ hj)]

end StreamDecoder

end FloridUsb.Lib
