import FloridUsb.Lib.StreamDecoder

/-!
# Noise between messages

A stream of messages with noise before, between and behind them. If the decoder takes no part of
the stream that begins in the noise for a message, it emits the messages in order; noise that
looks like the beginning of one can only make it wait, and what it has not emitted then is still
unread (`scan_noisy`).
-/

namespace FloridUsb.Lib
set_option autoImplicit false

namespace StreamDecoder

variable {α β γ : Type} (D : StreamDecoder α β)

/-- If the decoder decides here, it skips one symbol. -/
def Skips (xs : List α) : Prop := ∀ n out, D.verdict xs = .read n out → n = 1 ∧ out = []

/-- Noise, and what follows it. -/
def Quiet (noise later : List α) : Prop := ∀ i < noise.length, D.Skips ((noise ++ later).drop i)

/-- Messages, each with the noise before it, and the noise at the end. -/
def noisy (enc : γ → List α) (pieces : List (List α × γ)) (last : List α) : List α :=
  pieces.flatMap (fun p => p.1 ++ enc p.2) ++ last

/-- Nothing that begins in the noise is taken for a message. -/
def Unforged (enc : γ → List α) (last : List α) : List (List α × γ) → Prop
  | [] => D.Quiet last []
  | p :: pieces => D.Quiet p.1 (enc p.2 ++ noisy enc pieces last) ∧ Unforged enc last pieces

theorem noisy_cons (enc : γ → List α) (p : List α × γ) (pieces : List (List α × γ)) (last : List α) :
    noisy enc (p :: pieces) last = p.1 ++ (enc p.2 ++ noisy enc pieces last) := by
  simp only [noisy, List.flatMap_cons, List.append_assoc]

/-- The decoder passes over noise, or waits in it. -/
theorem scan_quiet {noise later : List α} (quiet : D.Quiet noise later) :
    D.scan (noise ++ later) = D.scan later ∨ ∃ left, left.length ≤ noise.length ∧
      D.scan (noise ++ later) = ([], left ++ later) := by
  induction noise with
  | nil => exact .inl rfl
  | cons x noise ih =>
    have rest : D.Quiet noise later := fun i inside => quiet (i + 1) (Nat.succ_lt_succ inside)
    cases decided : D.verdict (x :: noise ++ later) with
    | wait => exact .inr ⟨x :: noise, Nat.le_refl _, D.scan_wait decided⟩
    | read n out =>
      obtain ⟨rfl, rfl⟩ := quiet 0 (Nat.succ_pos _) n out decided
      have skipped : D.scan (x :: noise ++ later) = D.scan (noise ++ later) := D.scan_read decided
      rw [skipped]
      refine (ih rest).imp_right fun ⟨left, short, waits⟩ => ?_
      exact ⟨left, Nat.le_trans short (Nat.le_succ _), waits⟩

/-- **The decoder finds the messages again.** It emits those of a first part of the stream, and the
others are all unread. -/
theorem scan_noisy {enc : γ → List α} {dec : γ → List β} {pieces : List (List α × γ)} {last : List α}
    (whole : ∀ p ∈ pieces, D.verdict (enc p.2) = .read (enc p.2).length (dec p.2))
    (unforged : D.Unforged enc last pieces) :
    ∃ done rest, pieces = done ++ rest ∧ (D.scan (noisy enc pieces last)).1 = done.flatMap (fun p => dec p.2) ∧
      (rest.flatMap fun p => enc p.2).length ≤ (D.scan (noisy enc pieces last)).2.length := by
  induction pieces with
  | nil =>
    refine ⟨[], [], rfl, ?_, Nat.zero_le _⟩
    have passed := D.scan_quiet unforged
    rw [List.append_nil] at passed
    rcases passed with all | ⟨left, -, waits⟩
    · exact congrArg Prod.fst all
    · exact congrArg Prod.fst waits
  | cons p pieces ih =>
    obtain ⟨quiet, later⟩ := unforged
    rw [noisy_cons]
    rcases D.scan_quiet quiet with passed | ⟨left, -, waits⟩
    · obtain ⟨done, rest, split, emitted, unread⟩ := ih (fun q hq => whole q (List.mem_cons_of_mem _ hq)) later
      have read := D.scan_read_append (noisy enc pieces last) (whole p List.mem_cons_self)
      refine ⟨p :: done, rest, by rw [split]; rfl, ?_, ?_⟩
      · rw [passed, read, List.flatMap_cons, emitted]
      · rw [passed, read]
        exact unread
    · refine ⟨[], p :: pieces, rfl, by rw [waits]; rfl, ?_⟩
      have fewer : ∀ ps : List (List α × γ), (ps.flatMap fun p => enc p.2).length ≤ (noisy enc ps last).length := by
        intro ps
        induction ps with
        | nil => exact Nat.zero_le _
        | cons q ps ih =>
          rw [noisy_cons, List.flatMap_cons, List.length_append, List.length_append, List.length_append]
          omega
      rw [waits, List.flatMap_cons, List.length_append, List.length_append, List.length_append]
      have := fewer pieces
      omega

end StreamDecoder

end FloridUsb.Lib
