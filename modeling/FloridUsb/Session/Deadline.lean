import FloridUsb.Session.Filter

/-!
# The next deadline and the poll

`next_deadline` is a search for the smallest deadline in flight, `poll` a loop that erases and
rewrites what it visits. Before the next deadline nothing is due and a poll changes nothing
(`poll_idle`); from then on every due request is retransmitted or expires, and nothing else is
touched (`polls_due`). The callbacks of the poll in question register nothing.
-/

namespace FloridUsb.Session
set_option autoImplicit false

open Lib ReliableSession

/-- What a poll does to the requests that are due, and to the others. -/
structure PollsDue (s : ReliableSession) (now : Time) (clock : TransactionId → Time) : Prop where
  some_due : ∃ t p, s.pendingByTx.find? t = some p ∧ p.isDue now = true
  retries : ∀ t p, s.pendingByTx.find? t = some p → p.isDue now = true → p.retryCount < p.maxRetries →
    (s.poll now clock fun _ => []).1.pendingByTx.find? t =
      some { p with retryCount := p.retryCount + 1, deadline := clock t + p.timeout }
  expiries : ∀ t p, s.pendingByTx.find? t = some p → p.isDue now = true → p.maxRetries ≤ p.retryCount →
    (s.poll now clock fun _ => []).1.pendingByTx.find? t = none
  others : ∀ t, (∀ p, s.pendingByTx.find? t = some p → p.isDue now = false) →
    (s.poll now clock fun _ => []).1.pendingByTx.find? t = s.pendingByTx.find? t
  /-- The entries returned are those that are due and have a retry left. -/
  returned : (s.poll now clock fun _ => []).2.2.Perm
    ((s.pendingByTx.entries.filter fun e => e.2.isDue now && !e.2.expires now).map fun e => e.2.toRetransmit)
  /-- The callbacks invoked are those of the entries that have expired. -/
  called : (s.poll now clock fun _ => []).2.1.Perm
    ((s.pendingByTx.entries.filter fun e => e.2.expires now && e.2.onError).map fun e => .error e.1 .timeout)

section Poll

variable {s : ReliableSession} {now : Time} {clock : TransactionId → Time}

theorem pollLoop_idle (idle : ∀ t p, s.pendingByTx.find? t = some p → p.isDue now = false) :
    s.pollLoop now clock = (s, { inflightCount := s.inflightCount }) := by
  have swept : s.pendingByTx.sweep (fun acc e => (pollKeeps now clock e, pollCollects now acc e))
      { inflightCount := s.inflightCount } = (s.pendingByTx, { inflightCount := s.inflightCount }) := by
    apply DenseMap.sweep_keep
    rintro ⟨t, p⟩ member
    have waits := idle t p (DenseMap.find?_eq_some.mpr member)
    rw [pollKeeps_idle waits, pollCollects_idle waits]
  simp only [pollLoop, swept]

/-- A poll at which nothing is due. -/
theorem poll_idle (idle : ∀ t p, s.pendingByTx.find? t = some p → p.isDue now = false)
    (reentry : TransactionId → List (Time × Registration)) : s.poll now clock reentry = (s, [], []) := by
  rw [poll, pollLoop_idle idle]
  rfl

/-- Callbacks that register nothing are only seen in the log. -/
theorem runCallbacks_quiet (s : ReliableSession) (callbacks : List (TransactionId × Bool)) :
    runCallbacks (fun _ => []) s callbacks =
      (s, (callbacks.filter (·.2)).map fun c => .error c.1 .timeout) := by
  induction callbacks with
  | nil => rfl
  | cons cb callbacks ih =>
    obtain ⟨txId, present⟩ := cb
    cases present with
    | false => exact ih
    | true =>
      simp only [runCallbacks, registerAll, ih]
      rfl

theorem poll_quiet (s : ReliableSession) (now : Time) (clock : TransactionId → Time) :
    s.poll now clock (fun _ => []) = ((s.pollLoop now clock).1,
      ((s.pollLoop now clock).2.callbacks.filter (·.2)).map (fun c => .error c.1 .timeout),
      (s.pollLoop now clock).2.retries) := by
  rw [poll, runCallbacks_quiet]

/-- The loop visits every entry once, in an order of its own. -/
theorem polls_returned (s : ReliableSession) (now : Time) (clock : TransactionId → Time) :
    (s.pollLoop now clock).2.retries.Perm
      ((s.pendingByTx.entries.filter fun e => e.2.isDue now && !e.2.expires now).map fun e => e.2.toRetransmit) := by
  obtain ⟨visits, perm, -, acc⟩ := pollLoop_visits s now clock
  rw [acc, collected_retries, List.nil_append]
  exact (perm.filter _).map _

theorem polls_called (covered : Covered s) (now : Time) (clock : TransactionId → Time) :
    (((s.pollLoop now clock).2.callbacks.filter (·.2)).map fun c => Event.error c.1 .timeout).Perm
      ((s.pendingByTx.entries.filter fun e => e.2.expires now && e.2.onError).map
        fun e => .error e.1 .timeout) := by
  obtain ⟨visits, perm, -, acc⟩ := pollLoop_visits s now clock
  have same : (((s.pollLoop now clock).2.callbacks.filter (·.2)).map fun c => Event.error c.1 .timeout) =
      (visits.filter fun e => e.2.expires now && e.2.onError).map fun e => .error e.1 .timeout := by
    rw [acc, collected_callbacks, List.nil_append, List.filter_map, List.map_map, List.filter_filter]
    simp only [Function.comp_def, Bool.and_comm]
    apply List.map_congr_left
    rintro ⟨t, p⟩ member
    have visited := perm.mem_iff.mp (List.mem_of_mem_filter member)
    exact congrArg (Event.error · .timeout) (covered.keyed t p (DenseMap.find?_eq_some.mpr visited))
  rw [same]
  exact (perm.filter _).map _

/-- **A poll at which something is due.** -/
theorem polls_due (covered : Covered s) (some_due : ∃ t p, s.pendingByTx.find? t = some p ∧ p.isDue now = true)
    (clock : TransactionId → Time) : PollsDue s now clock := by
  constructor
  · exact some_due
  · intro t p found due left
    have lives : p.expires now = false := by
      rw [Bool.eq_false_iff, ne_eq, PendingEntry.expires_iff due]
      exact UInt8.not_le.mpr left
    rw [poll_quiet, pollLoop_find, found]
    exact pollKeeps_retry due lives
  · intro t p found due spent
    rw [poll_quiet, pollLoop_find, found]
    exact pollKeeps_eq_none_iff.mpr ((PendingEntry.expires_iff due).mpr spent)
  · intro t waits
    rw [poll_quiet, pollLoop_find]
    cases found : s.pendingByTx.find? t with
    | none => rfl
    | some p => exact pollKeeps_idle (waits p found)
  · rw [poll_quiet]
    exact polls_returned s now clock
  · rw [poll_quiet]
    exact polls_called covered now clock

/-- Before the next deadline nothing is due. -/
theorem idle_of_early (early : ∀ d, s.nextDeadline = some d → now < d) :
    ∀ t p, s.pendingByTx.find? t = some p → p.isDue now = false := by
  intro t p found
  rw [Bool.eq_false_iff]
  intro due
  obtain ⟨flying, reached⟩ := PendingEntry.isDue_iff.mp due
  cases next : s.nextDeadline with
  | none =>
    rw [nextDeadline_eq_none.mp next t p found] at flying
    cases flying
  | some d =>
    have least := (nextDeadline_eq_some.mp next).2 t p found flying
    exact absurd reached (Int.not_le.mpr (Int.lt_of_lt_of_le (early d next) least))

end Poll

/-- **`next_deadline` and `poll` agree.** In every state of a run: without a request in flight
there is no deadline, and with no deadline a poll does nothing; before the deadline a poll does
nothing; from the deadline on it retransmits or expires every request that is due, at least one,
and leaves the others as they are. -/
theorem deadline_and_poll (config : Config) (ops : List Op) :
    let s := session.exec (.init config) ops
    (s.nextDeadline = none ↔ ∀ t p, s.pendingByTx.find? t = some p → p.inflight = false) ∧
      (s.nextDeadline = none → ∀ now clock, s.poll now clock (fun _ => []) = (s, [], [])) ∧
      ∀ d, s.nextDeadline = some d → ∀ now clock,
        (now < d → s.poll now clock (fun _ => []) = (s, [], [])) ∧ (d ≤ now → PollsDue s now clock) := by
  intro s
  have covered : Covered s := Covered.run config ops
  refine ⟨nextDeadline_eq_none, ?_, ?_⟩
  · intro none now clock
    apply poll_idle
    apply idle_of_early
    intro d some_
    rw [none] at some_
    cases some_
  · intro d next now clock
    constructor
    · intro early
      apply poll_idle
      apply idle_of_early
      intro e same
      rw [next] at same
      cases same
      exact early
    · intro late
      apply polls_due covered
      obtain ⟨⟨t, p, found, flying, attained⟩, -⟩ := nextDeadline_eq_some.mp next
      refine ⟨t, p, found, PendingEntry.isDue_iff.mpr ⟨flying, ?_⟩⟩
      rw [attained]
      exact late

end FloridUsb.Session
