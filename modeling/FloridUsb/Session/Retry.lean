import FloridUsb.Session.OneAtATime
import FloridUsb.Session.Notify

/-!
# Retries and timeouts

What happens to a request, on a clock that does not go back. The events about a transaction
tell one story (`Life`): registered, handed out, retransmitted at most `max_retries` times, and
closed by at most one callback. A timeout closes it after exactly `max_retries` retransmissions,
and each of them has moved the deadline on by one timeout at least, so acknowledgements can
only delay it.
-/

namespace FloridUsb.Session
set_option autoImplicit false

open Lib ReliableSession

/-! ### Runs with their clock -/

/-- What a run logs: a reading of the clock, or an event with the reading its operation starts with. -/
inductive Moment where
  | reads (now : Time)
  | logs (start : Option Time) (e : Event)

def Moment.reading? : Moment → Option Time
  | .reads now => some now
  | .logs _ _ => none

def Moment.event? : Moment → Option Event
  | .reads _ => none
  | .logs _ e => some e

def clockReadings (log : List Moment) : List Time := log.filterMap Moment.reading?

def events (log : List Moment) : List Event := log.filterMap Moment.event?

/-- The clock does not go back. -/
def NonDecreasing (log : List Moment) : Prop := (clockReadings log).Pairwise (· ≤ ·)

def Op.start? : Op → Option Time
  | .registerPending now _ | .onAck now _ | .poll now _ _ | .nextOutbound now => some now
  | .onResponse _ _ _ | .onRequest _ _ | .cacheResponse _ _ _ _ | .resetDeviceState => none

/-- What an operation reads from the clock, in order. `on_ack` reads it for a request in flight,
`next_outbound` when it hands one out, `poll` once, then for each retry, and then in the
registrations its callbacks make. -/
def ReliableSession.readings (s : ReliableSession) : Op → List Time
  | .registerPending now _ => [now]
  | .onAck now txId => if (s.pendingByTx.find? txId).any (·.inflight) then [now] else []
  | .poll now clock reentry =>
    let acc := (s.pollLoop now clock).2
    now :: ((acc.retries.map fun e => clock e.txId) ++
      (acc.callbacks.filter (·.2)).flatMap fun c => (reentry c.1).map Prod.fst)
  | .nextOutbound now => if (s.nextOutbound now).2.isSome then [now] else []
  | .onResponse _ _ _ | .onRequest _ _ | .cacheResponse _ _ _ _ | .resetDeviceState => []

def ReliableSession.moments (s : ReliableSession) (o : Op) : List Moment :=
  (s.readings o).map .reads ++ (session.step s o).2.map (.logs o.start?)

/-- A session as a machine that logs the clock with its events. -/
def timed : Machine ReliableSession Op Moment where
  step s o := ((session.step s o).1, s.moments o)

@[simp] theorem events_append (a b : List Moment) : events (a ++ b) = events a ++ events b := List.filterMap_append

@[simp] theorem clockReadings_append (a b : List Moment) :
    clockReadings (a ++ b) = clockReadings a ++ clockReadings b :=
  List.filterMap_append

theorem events_reads (readings : List Time) : events (readings.map .reads) = [] := by
  induction readings with
  | nil => rfl
  | cons now readings ih => exact ih

theorem events_logs (start : Option Time) (ev : List Event) : events (ev.map (.logs start)) = ev := by
  induction ev with
  | nil => rfl
  | cons e ev ih => exact congrArg (e :: ·) ih

theorem clockReadings_reads (readings : List Time) : clockReadings (readings.map .reads) = readings := by
  induction readings with
  | nil => rfl
  | cons now readings ih => exact congrArg (now :: ·) ih

theorem clockReadings_logs (start : Option Time) (ev : List Event) : clockReadings (ev.map (.logs start)) = [] := by
  induction ev with
  | nil => rfl
  | cons e ev ih => exact ih

@[simp] theorem events_moments (s : ReliableSession) (o : Op) : events (s.moments o) = (session.step s o).2 := by
  rw [moments, events_append, events_reads, events_logs, List.nil_append]

@[simp] theorem clockReadings_moments (s : ReliableSession) (o : Op) : clockReadings (s.moments o) = s.readings o := by
  rw [moments, clockReadings_append, clockReadings_reads, clockReadings_logs, List.append_nil]

theorem logs_moments {s : ReliableSession} {o : Op} {start : Option Time} {e : Event}
    (member : .logs start e ∈ s.moments o) :
    start = o.start? ∧ e ∈ (session.step s o).2 := by
  rcases List.mem_append.mp member with reading | logged
  · obtain ⟨_, -, same⟩ := List.mem_map.mp reading
    cases same
  · obtain ⟨e, there, same⟩ := List.mem_map.mp logged
    cases same
    exact ⟨rfl, there⟩

theorem mem_events {log : List Moment} {e : Event} : e ∈ events log ↔ ∃ start, .logs start e ∈ log := by
  constructor
  · intro member
    obtain ⟨m, there, said⟩ := List.mem_filterMap.mp member
    cases m with
    | reads now => cases said
    | logs start e' =>
      cases said
      exact ⟨start, there⟩
  · rintro ⟨start, there⟩
    exact List.mem_filterMap.mpr ⟨_, there, rfl⟩

/-- The clock is an addition: without it the run is the same. -/
theorem timed_run (s : ReliableSession) (ops : List Op) :
    timed.exec s ops = session.exec s ops ∧ events (timed.trace s ops) = session.trace s ops := by
  induction ops generalizing s with
  | nil => exact ⟨rfl, rfl⟩
  | cons o ops ih =>
    obtain ⟨state, log⟩ := ih (session.step s o).1
    constructor
    · exact state
    · show events (s.moments o ++ timed.trace (session.step s o).1 ops) = _
      rw [events_append, events_moments, log]
      rfl

theorem NonDecreasing.left {a b : List Moment} (up : NonDecreasing (a ++ b)) : NonDecreasing a := by
  rw [NonDecreasing, clockReadings_append] at up
  exact (List.pairwise_append.mp up).1

/-! ### The story of a request -/

/-- The events about a transaction. -/
def Event.concerns (t : TransactionId) : Event → Bool
  | .registered r => r.txId = t
  | .handedOut e | .retransmitted e => e.txId = t
  | .response u _ _ | .error u _ => u = t
  | .requested _ _ _ => false

def about (t : TransactionId) (log : List Event) : List Event := log.filter (Event.concerns t)

@[simp] theorem about_append (t : TransactionId) (a b : List Event) : about t (a ++ b) = about t a ++ about t b :=
  List.filter_append ..

/-- The entry that is sent for a request. -/
def Registration.entry (r : Registration) :
    RetransmitEntry := ⟨r.txId, r.requestCmd, r.requestBytes.take MAX_PACKET_SIZE⟩

/-- A request that waits, or that was handed out and then retransmitted `n` times. -/
def told (r : Registration) : Option Nat → List Event
  | none => [.registered r]
  | some n => .registered r :: .handedOut r.entry :: List.replicate n (.retransmitted r.entry)

theorem PendingEntry.entry_eq {p : PendingEntry} {r : Registration} (request : p.request = r.stored) :
    p.toRetransmit = r.entry := by
  obtain ⟨tx, cmd, -, bytes, -⟩ := Registration.mk.inj request
  rw [toRetransmit, tx, cmd, bytes]
  rfl

theorem told_succ (r : Registration) (n : Nat) :
    told r (some (n + 1)) = told r (some n) ++ [.retransmitted r.entry] := by
  rw [told, List.replicate_succ', told]
  rfl

/-- When the request was handed out, and when its callback was invoked for a timeout. -/
def HandedAt (log : List Moment) (t : TransactionId) (since : Option Time) : Prop :=
  ∃ e, .logs since (.handedOut e) ∈ log ∧ e.txId = t

def TimedOutAt (log : List Moment) (t : TransactionId) (at_ : Option Time) : Prop := .logs at_ (.error t .timeout) ∈ log

/-- How a story ends: without a callback, with a response, or with a timeout after all retries. -/
inductive Closing (r : Registration) (log : List Moment) : Option Nat → List Event → Prop
  | silent (n : Option Nat) : Closing r log n []
  | answered (n : Option Nat) (cmd : UInt16) (bytes : List UInt8) : Closing r log n [.response r.txId cmd bytes]
  | timedOut (late : ∀ since, HandedAt log r.txId since → ∀ at_, TimedOutAt log r.txId at_ →
      ∃ t₀ now, since = some t₀ ∧ at_ = some now ∧ t₀ + (r.maxRetries.toNat + 1) * r.timeout ≤ now) :
      Closing r log (some r.maxRetries.toNat) [.error r.txId .timeout]

/-- Each retransmission has moved the deadline of a request in flight on by one timeout. -/
def OnTime (log : List Moment) (t : TransactionId) (p : PendingEntry) : Prop :=
  ∀ since, HandedAt log t since → ∃ t₀, since = some t₀ ∧
    (∃ c ∈ clockReadings log, t₀ + p.retryCount.toNat * p.timeout ≤ c) ∧
    t₀ + (p.retryCount.toNat + 1) * p.timeout ≤ p.deadline

/-- **The life of a transaction**, as the session and the log show it. -/
inductive Life (t : TransactionId) (s : ReliableSession) (log : List Moment) : Prop
  | unborn (absent : s.pendingByTx.find? t = none) (story : about t (events log) = [])
  | waiting (r : Registration) (p : PendingEntry) (found : s.pendingByTx.find? t = some p)
    (request : p.request = r.stored)
      (id : r.txId = t) (idle : p.inflight = false) (first : p.retryCount = 0)
      (story : about t (events log) = told r none)
  | flying (r : Registration) (p : PendingEntry) (found : s.pendingByTx.find? t = some p)
    (request : p.request = r.stored)
      (id : r.txId = t) (inflight : p.inflight = true) (bounded : p.retryCount ≤ p.maxRetries) (onTime : OnTime log t p)
      (story : about t (events log) = told r (some p.retryCount.toNat))
  | gone (r : Registration) (n : Option Nat) (closing : List Event) (absent : s.pendingByTx.find? t = none)
    (id : r.txId = t)
      (bounded : ∀ k, n = some k → k ≤ r.maxRetries.toNat) (closed : Closing r log n closing)
      (story : about t (events log) = told r n ++ closing)

section Extend

variable {t : TransactionId} {log new : List Moment}

theorem HandedAt.split {since : Option Time} (handed : HandedAt (log ++ new) t since) :
    HandedAt log t since ∨ HandedAt new t since := by
  obtain ⟨e, member, id⟩ := handed
  rcases List.mem_append.mp member with old | here
  · exact .inl ⟨e, old, id⟩
  · exact .inr ⟨e, here, id⟩

theorem HandedAt.mem_about {since : Option Time} (handed : HandedAt log t since) :
    ∃ e, .handedOut e ∈ about t (events log) := by
  obtain ⟨e, member, id⟩ := handed
  exact ⟨e, List.mem_filter.mpr ⟨mem_events.mpr ⟨since, member⟩, decide_eq_true id⟩⟩

theorem TimedOutAt.mem_about {at_ : Option Time} (out : TimedOutAt log t at_) :
    .error t .timeout ∈ about t (events log) :=
  List.mem_filter.mpr ⟨mem_events.mpr ⟨at_, out⟩, decide_eq_true rfl⟩

/-- What was handed out earlier, if nothing is handed out now. -/
theorem HandedAt.earlier {since : Option Time} (quiet : ∀ e, .handedOut e ∉ about t (events new))
    (handed : HandedAt (log ++ new) t since) : HandedAt log t since := by
  rcases handed.split with old | here
  · exact old
  · obtain ⟨e, member⟩ := here.mem_about
    exact absurd member (quiet e)

theorem OnTime.extend {p : PendingEntry} (onTime : OnTime log t p) (quiet : ∀ e, .handedOut e ∉ about t (events new)) :
    OnTime (log ++ new) t p := by
  intro since handed
  obtain ⟨t₀, at_, ⟨c, reading, low⟩, due⟩ := onTime since (handed.earlier quiet)
  rw [clockReadings_append]
  exact ⟨t₀, at_, ⟨c, List.mem_append_left _ reading, low⟩, due⟩

theorem Closing.extend {r : Registration} {n : Option Nat} {closing : List Event} (closed : Closing r log n closing)
    (quiet : about r.txId (events new) = []) : Closing r (log ++ new) n closing := by
  cases closed with
  | silent => exact .silent n
  | answered n cmd bytes => exact .answered n cmd bytes
  | timedOut late =>
    apply Closing.timedOut
    intro since handed at_ out
    apply late since (handed.earlier (by simp [quiet]))
    rcases List.mem_append.mp out with old | here
    · exact old
    · have member := TimedOutAt.mem_about here
      rw [quiet] at member
      cases member

/-- A step that neither says nor does anything about a transaction. -/
theorem Life.frame {s s' : ReliableSession} (life : Life t s log)
    (same : s'.pendingByTx.find? t = s.pendingByTx.find? t)
    (quiet : about t (events new) = []) : Life t s' (log ++ new) := by
  have none : ∀ e, .handedOut e ∉ about t (events new) := by simp [quiet]
  have story : about t (events (log ++ new)) = about t (events log) := by
    rw [events_append, about_append, quiet, List.append_nil]
  cases life with
  | unborn absent told => exact .unborn (same.trans absent) (story.trans told)
  | waiting r p found request id idle first told =>
    exact .waiting r p (same.trans found) request id idle first (story.trans told)
  | flying r p found request id inflight bounded onTime told =>
    exact .flying r p (same.trans found) request id inflight bounded (onTime.extend none) (story.trans told)
  | gone r n closing absent id bounded closed told =>
    have closed : Closing r (log ++ new) n closing := closed.extend (id ▸ quiet)
    exact .gone r n closing (same.trans absent) id bounded closed (story.trans told)

/-- A transaction with a story has been registered. -/
theorem mem_registeredTxs_of_told {r : Registration} {n : Option Nat} {closing ev : List Event}
    (story : about t ev = told r n ++ closing) : t ∈ registeredTxs ev := by
  have first : .registered r ∈ about t ev := by
    rw [story]
    apply List.mem_append_left
    cases n <;> exact List.mem_cons_self
  obtain ⟨there, id⟩ := List.mem_filter.mp first
  exact List.mem_filterMap.mpr ⟨_, there, congrArg some (of_decide_eq_true id)⟩

/-- Later readings are not earlier. -/
theorem NonDecreasing.le {s : ReliableSession} {o : Op} (up : NonDecreasing (log ++ s.moments o)) {c now : Time}
    (old : c ∈ clockReadings log) (read : now ∈ s.readings o) : c ≤ now := by
  rw [NonDecreasing, clockReadings_append, clockReadings_moments] at up
  exact (List.pairwise_append.mp up).2.2 c old now read

end Extend

/-! ### What `poll` says about a transaction -/

section Poll

variable {s : ReliableSession} {log : List Event} {now : Time} {clock : TransactionId → Time} {t : TransactionId}

/-- The callbacks of `poll` leave a transaction alone that they do not register. -/
theorem find?_runCallbacks {reentry : TransactionId → List (Time × Registration)}
    {callbacks : List (TransactionId × Bool)}
    (others : ∀ r, .registered r ∈ (runCallbacks reentry s callbacks).2 → r.txId ≠ t) :
    (runCallbacks reentry s callbacks).1.pendingByTx.find? t = s.pendingByTx.find? t := by
  refine runCallbacks_keeps (G := fun ev => ∀ r, .registered r ∈ ev → r.txId ≠ t)
    (I := fun s' _ => s'.pendingByTx.find? t = s.pendingByTx.find? t) (h := []) ?_ ?_ ?_ reentry callbacks rfl others
  · exact fun h ev others r member => others r (List.mem_append_left _ member)
  · intro s' h now r same others
    have other : t ≠ r.txId := fun same => others r (by simp) same.symm
    rw [registerPending, DenseMap.find?_insertOrAssign_ne _ _ other]
    exact same
  · exact fun _ _ _ same => same

theorem about_runCallbacks {reentry : TransactionId → List (Time × Registration)}
    {callbacks : List (TransactionId × Bool)}
    (others : ∀ r, .registered r ∈ (runCallbacks reentry s callbacks).2 → r.txId ≠ t) :
    about t (runCallbacks reentry s callbacks).2 =
      (callbacks.filter fun c => decide (c.1 = t) && c.2).map fun _ => .error t .timeout := by
  rw [← callbacksFor_runCallbacks t reentry s callbacks]
  apply List.filter_congr
  intro e member
  rcases mem_runCallbacks member with ⟨r, rfl⟩ | ⟨u, rfl⟩
  · simp [Event.concerns, Event.notifies?, others r member]
  · simp [Event.concerns, Event.notifies?]

theorem no_callbacks (w : Window s log) (lives : ∀ p, s.pendingByTx.find? t = some p → p.expires now = false) :
    ((s.pollLoop now clock).2.callbacks.filter fun c => decide (c.1 = t) && c.2) = [] := by
  rw [List.filter_eq_nil_iff]
  rintro ⟨u, present⟩ member due
  simp only [Bool.and_eq_true, decide_eq_true_eq] at due
  obtain ⟨p, found, expired⟩ := mem_callbacks w.keyed member
  rw [lives p (due.1 ▸ found)] at expired
  cases expired

/-- The retries of a transaction that the loop of `poll` has collected. -/
theorem due_retries (w : Window s log) (now : Time) (clock : TransactionId → Time) (t : TransactionId) :
    about t ((s.pollLoop now clock).2.retries.map .retransmitted) =
      match s.pendingByTx.find? t with
      | none => []
      | some p => if p.isDue now && !p.expires now then [.retransmitted p.toRetransmit] else [] := by
  obtain ⟨visits, perm, -, acc⟩ := pollLoop_visits s now clock
  rw [acc, collected_retries, List.nil_append, List.map_map, about, List.filter_map, List.filter_filter]
  have same : (visits.filter fun e => (Event.concerns t ∘ (Event.retransmitted ∘ fun e => e.2.toRetransmit)) e &&
      (e.2.isDue now && !e.2.expires now)) =
      visits.filter fun e => (e.2.isDue now && !e.2.expires now) && decide (e.1 = t) := by
    apply List.filter_congr
    rintro ⟨u, p⟩ member
    have keyed := w.keyed u p (DenseMap.find?_eq_some.mpr (perm.mem_iff.mp member))
    simp [Event.concerns, PendingEntry.toRetransmit, keyed, Bool.and_comm]
  rw [same]
  cases found : s.pendingByTx.find? t with
  | none =>
    have empty : (visits.filter fun e => (e.2.isDue now && !e.2.expires now) && decide (e.1 = t)) = [] := by
      rw [List.filter_eq_nil_iff]
      rintro ⟨u, p⟩ member due
      simp only [Bool.and_eq_true, decide_eq_true_eq] at due
      have there := DenseMap.find?_eq_some.mpr (perm.mem_iff.mp member)
      rw [due.2, found] at there
      cases there
    rw [empty]
    rfl
  | some p =>
    rw [← List.filter_filter, DenseMap.filter_key found perm, List.filter_cons, List.filter_nil]
    show _ = if (p.isDue now && !p.expires now) = true then _ else _
    by_cases due : (p.isDue now && !p.expires now) = true
    · rw [if_pos due, if_pos due]
      rfl
    · rw [if_neg due, if_neg due]
      rfl

end Poll

/-! ### One step in the life of a transaction -/

namespace Life

variable {t : TransactionId} {s : ReliableSession} {log : List Moment}

theorem of_fresh (life : Life t s log) (fresh : t ∉ registeredTxs (events log)) :
    s.pendingByTx.find? t = none ∧ about t (events log) = [] := by
  cases life with
  | unborn absent story => exact ⟨absent, story⟩
  | waiting r p found request id idle first story =>
    exact absurd (mem_registeredTxs_of_told (story.trans (List.append_nil _).symm)) fresh
  | flying r p found request id inflight bounded onTime story =>
    exact absurd (mem_registeredTxs_of_told (story.trans (List.append_nil _).symm)) fresh
  | gone r n closing absent id bounded closed story => exact absurd (mem_registeredTxs_of_told story) fresh

/-- The story goes on with what an operation logs. -/
theorem goes_on {o : Op} {ev : List Event} (said : about t (session.step s o).2 = ev) :
    about t (events (log ++ s.moments o)) = about t (events log) ++ ev := by
  rw [events_append, about_append, events_moments, said]

theorem register (life : Life t s log) (now : Time) (r : Registration)
    (once : RegisteredOnce (events log ++ [.registered r])) :
    Life t (s.registerPending now r) (log ++ s.moments (.registerPending now r)) := by
  by_cases here : r.txId = t
  · obtain ⟨-, story⟩ := life.of_fresh (here ▸ once.fresh)
    have said : about t (session.step s (.registerPending now r)).2 = [.registered r] :=
      List.filter_cons_of_pos (decide_eq_true here)
    apply Life.waiting r (.ofRegistration r now)
    · rw [registerPending, here, DenseMap.find?_insertOrAssign_self]
    · rfl
    · exact here
    · rfl
    · rfl
    · rw [goes_on said, story]
      rfl
  · apply life.frame
    · exact DenseMap.find?_insertOrAssign_ne _ _ fun same => here same.symm
    · rw [events_moments]
      exact List.filter_cons_of_neg (by simpa [Event.concerns] using here)

theorem ack (life : Life t s log) (now : Time) (u : TransactionId)
    (up : NonDecreasing (log ++ s.moments (.onAck now u))) :
    Life t (s.onAck now u) (log ++ s.moments (.onAck now u)) := by
  have quiet : about t (session.step s (.onAck now u)).2 = [] := rfl
  rcases s.onAck_eq now u with same | ⟨q, hq, flag, done⟩
  · apply life.frame
    · rw [same]
    · rw [events_moments, quiet]
  by_cases here : u = t
  · subst here
    have read : now ∈ s.readings (.onAck now u) := by simp [readings, hq, flag]
    cases life with
    | unborn absent story => rw [hq] at absent; cases absent
    | gone r n closing absent id bounded closed story => rw [hq] at absent; cases absent
    | waiting r p found request id idle first story =>
      cases hq.symm.trans found
      rw [idle] at flag
      cases flag
    | flying r p found request id inflight bounded onTime story =>
      cases hq.symm.trans found
      apply Life.flying r { q with deadline := now + q.timeout }
      · rw [done]
        exact DenseMap.find?_insertOrAssign_self _ _ _
      · exact request
      · exact id
      · exact inflight
      · exact bounded
      · intro since handed
        obtain ⟨t₀, at_, ⟨c, reading, low⟩, -⟩ := onTime since (handed.earlier (by simp [quiet]))
        have later : c ≤ now := up.le reading read
        refine ⟨t₀, at_, ⟨c, ?_, low⟩, ?_⟩
        · rw [clockReadings_append]
          exact List.mem_append_left _ reading
        · show t₀ + (q.retryCount.toNat + 1) * q.timeout ≤ now + q.timeout
          rw [Int.add_mul, Int.one_mul, ← Int.add_assoc]
          exact Int.add_le_add_right (Int.le_trans low later) _
      · rw [goes_on quiet, List.append_nil]
        exact story
  · apply life.frame
    · rw [done]
      exact DenseMap.find?_insertOrAssign_ne _ _ fun same => here same.symm
    · rw [events_moments, quiet]

/-- A pending request as it is closed by a response, or retired without a word. -/
theorem close (life : Life t s log) {p : PendingEntry} (found : s.pendingByTx.find? t = some p) :
    ∃ r n, r.txId = t ∧ p.request = r.stored ∧ (∀ k, n = some k → k ≤ r.maxRetries.toNat) ∧
      about t (events log) = told r n := by
  cases life with
  | unborn absent story => rw [found] at absent; cases absent
  | gone r n closing absent id bounded closed story => rw [found] at absent; cases absent
  | waiting r q there request id idle first story =>
    cases found.symm.trans there
    exact ⟨r, none, id, request, (fun k same => by cases same), story⟩
  | flying r q there request id inflight bounded onTime story =>
    cases found.symm.trans there
    have max : p.maxRetries = r.maxRetries := congrArg Registration.maxRetries request
    refine ⟨r, _, id, request, fun k same => ?_, story⟩
    cases same
    rw [← max]
    exact UInt8.le_iff_toNat_le.mp bounded

theorem response (life : Life t s log) (w : Window s (events log)) (cmd : UInt16) (u : TransactionId)
    (bytes : List UInt8) :
    Life t (s.onResponse cmd u bytes).1 (log ++ s.moments (.onResponse cmd u bytes)) := by
  rcases s.onResponse_cases cmd u bytes with ⟨ring, done, -⟩ | ⟨ring, p, -, found, done⟩
  · apply life.frame
    · rw [done]
    · rw [events_moments]
      show about t (s.onResponse cmd u bytes).2 = []
      rw [done]
      rfl
  have keyed := w.keyed u p found
  by_cases here : u = t
  · subst here
    obtain ⟨r, n, id, request, bounded, story⟩ := life.close found
    have absent : (s.onResponse cmd u bytes).1.pendingByTx.find? u = none := by
      rw [done]
      exact DenseMap.find?_erase_self _ _
    by_cases fits : p.responseCmd = cmd ∧ p.onResponse = true
    · have said : about u (session.step s (.onResponse cmd u bytes)).2 = [.response r.txId cmd bytes] := by
        show about u (s.onResponse cmd u bytes).2 = _
        rw [done, if_pos fits, keyed, id]
        exact List.filter_cons_of_pos (decide_eq_true rfl)
      exact .gone r n _ absent id bounded (.answered n cmd bytes) (by rw [goes_on said, story])
    · have said : about u (session.step s (.onResponse cmd u bytes)).2 = [] := by
        show about u (s.onResponse cmd u bytes).2 = _
        rw [done, if_neg fits]
        rfl
      exact .gone r n _ absent id bounded (.silent n) (by rw [goes_on said, story])
  · apply life.frame
    · rw [done]
      exact DenseMap.find?_erase_ne _ fun same => here same.symm
    · rw [events_moments]
      show about t (s.onResponse cmd u bytes).2 = []
      rw [done]
      simp only
      split
      · exact List.filter_cons_of_neg (by simp [Event.concerns, keyed, here])
      · rfl

theorem outbound (life : Life t s log) (w : Window s (events log)) (now : Time) :
    Life t (s.nextOutbound now).1 (log ++ s.moments (.nextOutbound now)) := by
  rcases pump_cases now s s.outboundQueue with ⟨_, _, -, -, -, done⟩ | ⟨stale, u, rest, p, queue, -, found, -, done⟩
  · have out : (s.nextOutbound now).2 = none := by rw [nextOutbound, done]
    apply life.frame
    · rw [nextOutbound, done]
    · rw [events_moments]
      show about t (((s.nextOutbound now).2.map .handedOut).toList) = []
      rw [out]
      rfl
  have out : (s.nextOutbound now).2 = some p.toRetransmit := by rw [nextOutbound, done]
  have keyed := w.keyed u p found
  have idle : p.inflight = false := (w.waiting u p found).mp (by rw [queue]; simp)
  have logged : (session.step s (.nextOutbound now)).2 = [.handedOut p.toRetransmit] := by
    show ((s.nextOutbound now).2.map Event.handedOut).toList = _
    rw [out]
    rfl
  by_cases here : u = t
  · subst here
    have said : about u (session.step s (.nextOutbound now)).2 = [.handedOut p.toRetransmit] := by
      rw [logged]
      exact List.filter_cons_of_pos (decide_eq_true keyed)
    cases life with
    | unborn absent story => rw [found] at absent; cases absent
    | gone r n closing absent id bounded closed story => rw [found] at absent; cases absent
    | flying r q there request id inflight bounded onTime story =>
      cases found.symm.trans there
      rw [idle] at inflight
      cases inflight
    | waiting r q there request id _ first story =>
      cases found.symm.trans there
      have before : ∀ since, ¬ HandedAt log u since := by
        intro since handed
        obtain ⟨e, member⟩ := handed.mem_about
        rw [story] at member
        cases List.mem_singleton.mp member
      apply Life.flying r { p with inflight := true, deadline := now + p.timeout }
      · rw [nextOutbound, done]
        exact DenseMap.find?_insertOrAssign_self _ _ _
      · exact request
      · exact id
      · rfl
      · show p.retryCount ≤ p.maxRetries
        rw [first]
        exact UInt8.le_iff_toNat_le.mpr (Nat.zero_le _)
      · intro since handed
        rcases handed.split with old | ⟨e, member, -⟩
        · exact absurd old (before since)
        · refine ⟨now, (logs_moments member).1, ⟨now, ?_, ?_⟩, ?_⟩
          · rw [clockReadings_append, clockReadings_moments]
            apply List.mem_append_right
            simp [readings, out]
          · show now + (p.retryCount.toNat : Int) * p.timeout ≤ now
            rw [first]
            simp
          · show now + ((p.retryCount.toNat : Int) + 1) * p.timeout ≤ now + p.timeout
            rw [first]
            simp
      · rw [goes_on said, story, p.entry_eq request]
        show _ = told r (some p.retryCount.toNat)
        rw [first]
        rfl
  · apply life.frame
    · rw [nextOutbound, done]
      exact DenseMap.find?_insertOrAssign_ne _ _ fun same => here same.symm
    · rw [events_moments, logged]
      exact List.filter_cons_of_neg (by simp [Event.concerns, PendingEntry.toRetransmit, keyed, here])

section Polled

variable {s' : ReliableSession} {new : List Moment} {p : PendingEntry} {now again : Time}

theorem story_extend {ev : List Event} (said : about t (events new) = ev) :
    about t (events (log ++ new)) = about t (events log) ++ ev := by
  rw [events_append, about_append, said]

/-- A request that is out of retries is given up. -/
theorem expire (life : Life t s log) (found : s.pendingByTx.find? t = some p) (expired : p.expires now = true)
    (absent : s'.pendingByTx.find? t = none)
    (said : about t (events new) = if p.onError then [.error t .timeout] else [])
    (stamps : ∀ at_, TimedOutAt new t at_ → at_ = some now) : Life t s' (log ++ new) := by
  have facts := PendingEntry.spent_of_expires expired
  cases life with
  | unborn absent story => rw [found] at absent; cases absent
  | gone r n closing absent id bounded closed story => rw [found] at absent; cases absent
  | waiting r q there request id idle first story =>
    cases found.symm.trans there
    rw [idle] at facts
    cases facts.1.1
  | flying r q there request id inflight bounded onTime story =>
    cases found.symm.trans there
    have timeout : p.timeout = r.timeout := congrArg Registration.timeout request
    have max : p.maxRetries = r.maxRetries := congrArg Registration.maxRetries request
    have spent : p.retryCount = r.maxRetries := by
      rw [← max]
      exact UInt8.le_antisymm bounded facts.2
    rw [spent] at story
    have within : ∀ k, some r.maxRetries.toNat = some k → k ≤ r.maxRetries.toNat := by
      intro k same
      exact Nat.le_of_eq (Option.some.inj same).symm
    cases callback : p.onError with
    | false =>
      rw [callback] at said
      apply Life.gone r (some r.maxRetries.toNat) [] absent id within (.silent _)
      rw [story_extend said, story]
      rfl
    | true =>
      rw [callback] at said
      apply Life.gone r (some r.maxRetries.toNat) [.error r.txId .timeout] absent id within
      · apply Closing.timedOut
        intro since handed at_ out
        have earlier : HandedAt log t since := by
          refine HandedAt.earlier ?_ (id ▸ handed : HandedAt (log ++ new) t since)
          rw [said]
          simp
        obtain ⟨t₀, then_, -, due⟩ := onTime since earlier
        rw [id] at out
        rcases List.mem_append.mp out with old | here
        · have member := TimedOutAt.mem_about old
          rw [story] at member
          simp [told] at member
        · refine ⟨t₀, now, then_, stamps at_ here, ?_⟩
          rw [spent, timeout] at due
          exact Int.le_trans due facts.1.2
      · rw [story_extend said, story, id]
        rfl

/-- A request that has retries left is sent again, and has one timeout more. -/
theorem retry (life : Life t s log) (found : s.pendingByTx.find? t = some p) (due : p.isDue now = true)
    (lives : p.expires now = false)
    (kept : s'.pendingByTx.find? t = some { p with retryCount := p.retryCount + 1, deadline := again + p.timeout })
    (said : about t (events new) = [.retransmitted p.toRetransmit]) (read : now ∈ clockReadings new)
    (later : now ≤ again) :
    Life t s' (log ++ new) := by
  have facts : p.inflight = true ∧ p.deadline ≤ now := PendingEntry.isDue_iff.mp due
  have left : p.retryCount.toNat < p.maxRetries.toNat := PendingEntry.retryCount_lt due lives
  have counted : (p.retryCount + 1).toNat = p.retryCount.toNat + 1 := PendingEntry.retryCount_succ left
  cases life with
  | unborn absent story => rw [found] at absent; cases absent
  | gone r n closing absent id bounded closed story => rw [found] at absent; cases absent
  | waiting r q there request id idle first story =>
    cases found.symm.trans there
    rw [idle] at facts
    cases facts.1
  | flying r q there request id inflight bounded onTime story =>
    cases found.symm.trans there
    apply Life.flying r { p with retryCount := p.retryCount + 1, deadline := again + p.timeout } kept request id
      inflight
    · show p.retryCount + 1 ≤ p.maxRetries
      rw [UInt8.le_iff_toNat_le, counted]
      exact left
    · intro since handed
      have earlier : HandedAt log t since := by
        refine handed.earlier ?_
        rw [said]
        simp
      obtain ⟨t₀, then_, -, due⟩ := onTime since earlier
      have reached : t₀ + (p.retryCount.toNat + 1) * p.timeout ≤ now := Int.le_trans due facts.2
      refine ⟨t₀, then_, ⟨now, ?_, ?_⟩, ?_⟩
      · rw [clockReadings_append]
        exact List.mem_append_right _ read
      · show t₀ + ((p.retryCount + 1).toNat : Int) * p.timeout ≤ now
        rw [counted]
        exact reached
      · show t₀ + ((p.retryCount + 1).toNat + 1 : Int) * p.timeout ≤ again + p.timeout
        rw [counted, Int.add_mul, Int.one_mul, ← Int.add_assoc]
        exact Int.add_le_add_right (Int.le_trans reached later) _
    · rw [story_extend said, story, PendingEntry.entry_eq request]
      show _ = told r (some (p.retryCount + 1).toNat)
      rw [counted, told_succ]

end Polled

/-- A poll finds a registered request idle, spends one of its retries, or gives it up. -/
theorem polled (life : Life t s log) (w : Window s (events log)) (now : Time) (clock : TransactionId → Time)
    (reentry : TransactionId → List (Time × Registration))
    (others : ∀ r, .registered r ∈ (session.step s (.poll now clock reentry)).2 → r.txId ≠ t)
    (up : NonDecreasing (log ++ s.moments (.poll now clock reentry))) :
    Life t (s.poll now clock reentry).1 (log ++ s.moments (.poll now clock reentry)) := by
  have others : ∀ r, .registered r ∈
      (runCallbacks reentry (s.pollLoop now clock).1 (s.pollLoop now clock).2.callbacks).2 →
      r.txId ≠ t := fun r member => others r (List.mem_append_left _ member)
  have find : (s.poll now clock reentry).1.pendingByTx.find? t =
      (s.pendingByTx.find? t).bind fun p => pollKeeps now clock (t, p) := by
    rw [← pollLoop_find]
    exact find?_runCallbacks others
  have said : about t (events (s.moments (.poll now clock reentry))) =
      ((s.pollLoop now clock).2.callbacks.filter fun c => decide (c.1 = t) && c.2).map (fun _ => .error t .timeout) ++
        about t ((s.pollLoop now clock).2.retries.map .retransmitted) := by
    rw [events_moments, ← about_runCallbacks others]
    exact about_append t _ _
  have retries := due_retries w now clock t
  rw [retries] at said
  cases found : s.pendingByTx.find? t with
  | none =>
    rw [found, no_callbacks w fun p there => by rw [found] at there; cases there] at said
    apply life.frame
    · rw [find, found]
      rfl
    · rw [said]
      rfl
  | some p =>
    rw [found] at find said retries
    simp only [Option.bind_some] at find
    rcases pollKeeps_cases now clock (t, p) with ⟨idle, keeps, -⟩ | ⟨expired, keeps, -⟩ | ⟨due, lives, keeps, -⟩
    · have idle : p.isDue now = false := idle
      have lives : p.expires now = false := PendingEntry.expires_of_idle idle
      rw [no_callbacks w fun q there => by cases found.symm.trans there; exact lives] at said
      apply life.frame
      · rw [find, keeps, found]
      · rw [said]
        simp [idle]
    · have expired : p.expires now = true := expired
      rw [due_callbacks w now clock found expired] at said
      simp only [expired, Bool.not_true, Bool.and_false, Bool.false_eq_true, if_false, List.append_nil] at said
      apply life.expire found expired
      · rw [find, keeps]
      · rw [said]
        cases p.onError <;> rfl
      · intro at_ out
        exact (logs_moments out).1
    · have due : p.isDue now = true := due
      have lives : p.expires now = false := lives
      rw [no_callbacks w fun q there => by cases found.symm.trans there; exact lives] at said
      simp only [due, lives, Bool.not_false, Bool.and_true, if_true, List.map_nil, List.nil_append] at said retries
      apply life.retry found due lives (find.trans keeps) said
      · rw [clockReadings_moments]
        exact List.mem_cons_self
      · -- the clock is read again after the first reading
        rw [NonDecreasing, clockReadings_append, clockReadings_moments] at up
        apply (List.pairwise_cons.mp (List.pairwise_append.mp up).2.1).1
        apply List.mem_append_left
        have there : Event.retransmitted p.toRetransmit ∈ about t
            ((s.pollLoop now clock).2.retries.map .retransmitted) := by
          rw [retries]
          exact List.mem_singleton_self _
        obtain ⟨e, member, same⟩ := List.mem_map.mp (List.mem_of_mem_filter there)
        cases same
        rw [← w.keyed t p found]
        exact List.mem_map.mpr ⟨_, member, rfl⟩

/-- A poll whose callbacks may register the transaction. -/
theorem polled_unborn (absent : s.pendingByTx.find? t = none) (story : about t (events log) = [])
    (w : Window s (events log)) (now : Time) (clock : TransactionId → Time)
    (reentry : TransactionId → List (Time × Registration))
    (once : RegisteredOnce (events log ++ (session.step s (.poll now clock reentry)).2)) :
    Life t (s.poll now clock reentry).1 (log ++ s.moments (.poll now clock reentry)) := by
  have born := runCallbacks_keeps_due (G := RegisteredOnce)
    (I := fun s' ev => (s'.pendingByTx.find? t = none ∧ about t ev = []) ∨
      ∃ r p, s'.pendingByTx.find? t = some p ∧ p.request = r.stored ∧ r.txId = t ∧ p.inflight = false ∧
        p.retryCount = 0 ∧
        about t ev = told r none)
    (h := events log) (s := (s.pollLoop now clock).1) (fun _ _ => RegisteredOnce.left) ?register reentry
    (s.pollLoop now clock).2.callbacks ?error ?start ?good
  case register =>
    intro s' ev now r before once
    by_cases here : r.txId = t
    · rcases before with ⟨-, silent⟩ | ⟨r', p, -, -, -, -, -, said⟩
      · right
        refine ⟨r, .ofRegistration r now, ?_, rfl, here, rfl, rfl, ?_⟩
        · rw [registerPending, here, DenseMap.find?_insertOrAssign_self]
        · rw [about_append, silent]
          exact List.filter_cons_of_pos (decide_eq_true here)
      · have known := mem_registeredTxs_of_told (said.trans (List.append_nil _).symm)
        exact absurd (here ▸ known) once.fresh
    · have quiet : about t [Event.registered r] = [] := List.filter_cons_of_neg (by simpa [Event.concerns] using here)
      rw [about_append, quiet, List.append_nil, registerPending,
        DenseMap.find?_insertOrAssign_ne _ _ fun same => here same.symm]
      exact before
  case error =>
    intro s' ev u due before
    have other : u ≠ t := by
      rintro rfl
      obtain ⟨p, found, -⟩ := mem_callbacks w.keyed due
      rw [absent] at found
      cases found
    have quiet : about t [Event.error u .timeout] = [] :=
      List.filter_cons_of_neg (by simpa [Event.concerns] using other)
    rw [about_append, quiet, List.append_nil]
    exact before
  case start =>
    left
    refine ⟨?_, story⟩
    rw [pollLoop_find, absent]
    rfl
  case good =>
    change RegisteredOnce (events log ++ (_ ++ List.map Event.retransmitted _)) at once
    rw [← List.append_assoc] at once
    exact once.left
  have retries : about t ((s.poll now clock reentry).2.2.map .retransmitted) = [] := by
    have due := due_retries w now clock t
    rw [absent] at due
    exact due
  have whole : about t (events (log ++ s.moments (.poll now clock reentry))) =
      about t (events log ++ (runCallbacks reentry (s.pollLoop now clock).1 (s.pollLoop now clock).2.callbacks).2) := by
    rw [events_append, events_moments]
    show about t (events log ++ (_ ++ List.map Event.retransmitted _)) = _
    rw [← List.append_assoc, about_append, retries, List.append_nil]
    rfl
  rcases born with ⟨absent, silent⟩ | ⟨r, p, found, request, id, idle, first, said⟩
  · exact .unborn absent (whole.trans silent)
  · exact .waiting r p found request id idle first (whole.trans said)

/-- **One step** of the session is one step in the life of every transaction. -/
theorem step (life : Life t s log) (w : Window s (events log)) (o : Op)
    (once : RegisteredOnce (events log ++ (session.step s o).2)) (up : NonDecreasing (log ++ s.moments o)) :
    Life t (session.step s o).1 (log ++ s.moments o) := by
  have unchanged : ∀ {o : Op}, (session.step s o).1.pendingByTx = s.pendingByTx → about t (session.step s o).2 = [] →
      Life t (session.step s o).1 (log ++ s.moments o) := by
    intro o same quiet
    apply life.frame
    · rw [same]
    · rw [events_moments, quiet]
  cases o with
  | registerPending now r => exact life.register now r once
  | onAck now u => exact life.ack now u up
  | onResponse cmd u bytes => exact life.response w cmd u bytes
  | onRequest cmd u =>
    apply unchanged
    · show (s.onRequest cmd u).1.pendingByTx = _
      rw [s.onRequest_eq cmd u]
    · rfl
  | cacheResponse cmd u responseCmd bytes => exact unchanged rfl rfl
  | poll now clock reentry =>
    by_cases known : t ∈ registeredTxs (events log)
    · apply life.polled w now clock reentry _ up
      intro r member same
      rw [RegisteredOnce, registeredTxs_append, List.nodup_append] at once
      exact once.2.2 t known r.txId (List.mem_filterMap.mpr ⟨_, member, rfl⟩) same.symm
    · obtain ⟨absent, story⟩ := life.of_fresh known
      exact polled_unborn absent story w now clock reentry once
  | nextOutbound now => exact life.outbound w now
  | resetDeviceState => exact unchanged rfl rfl

/-- Every transaction lives its life in every run that registers once, on a clock that does not go back. -/
theorem run (config : Config) (ops : List Op) (once : RegisteredOnce (session.trace (.init config) ops))
    (up : NonDecreasing (timed.trace (.init config) ops)) (t : TransactionId) :
    Life t (session.exec (.init config) ops) (timed.trace (.init config) ops) := by
  have both := timed.run_invariant (s := .init config) (G := fun log => RegisteredOnce (events log) ∧ NonDecreasing log)
    (I := fun s log => Window s (events log) ∧ Life t s log) ?closed ?start ?keeps ops ?good
  case closed =>
    rintro log new ⟨once, up⟩
    rw [events_append] at once
    exact ⟨once.left, up.left⟩
  case start => exact ⟨Window.init config, .unborn rfl rfl⟩
  case keeps =>
    intro s log o ⟨w, life⟩ ⟨once, up⟩
    have once : RegisteredOnce (events log ++ (session.step s o).2) := by
      rw [← events_moments, ← events_append]
      exact once
    constructor
    · show Window _ (events (log ++ s.moments o))
      rw [events_append, events_moments]
      exact w.step o once
    · exact life.step w o once up
  case good =>
    rw [(timed_run _ ops).2]
    exact ⟨once, up⟩
  rw [(timed_run _ ops).1] at both
  exact both.2

end Life

/-! ### The accounts of a run -/

/-- The transactions handed out, in order. -/
def handedTxs (log : List Event) : List TransactionId := (handedKeys log).map Prod.snd

/-- How often `poll` has returned a request. -/
def retransmissions (t : TransactionId) (log : List Event) : Nat :=
  log.countP fun e => match e with
    | .retransmitted e => decide (e.txId = t)
    | _ => false

/-- How often the error callback of a request was invoked for a timeout. -/
def timeouts (t : TransactionId) (log : List Event) : Nat := log.count (.error t .timeout)

/-- The accounts of one request. -/
structure Accounts (r : Registration) (log : List Event) (moments : List Moment) : Prop where
  retransmissions : retransmissions r.txId log ≤ r.maxRetries.toNat
  timeouts : timeouts r.txId log ≤ 1
  /-- A timeout comes after the request was handed out and all its retries were made. -/
  exhausted : ∀ pre post, log = pre ++ .error r.txId .timeout :: post →
    .handedOut r.entry ∈ pre ∧ FloridUsb.Session.retransmissions r.txId pre = r.maxRetries.toNat
  /-- A timeout is not early. -/
  late : ∀ since at_, HandedAt moments r.txId since → TimedOutAt moments r.txId at_ →
    ∃ t₀ now, since = some t₀ ∧ at_ = some now ∧ t₀ + (r.maxRetries.toNat + 1) * r.timeout ≤ now

theorem retransmissions_about (t : TransactionId) (log : List Event) :
    retransmissions t log = retransmissions t (about t log) := by
  rw [retransmissions, retransmissions, about, List.countP_filter]
  apply List.countP_congr
  intro e _
  cases e <;> simp [Event.concerns]

theorem timeouts_about (t : TransactionId) (log : List Event) : timeouts t log = timeouts t (about t log) := by
  have concerns : Event.concerns t (.error t .timeout) = true := decide_eq_true rfl
  rw [timeouts, timeouts, about, List.count_filter concerns]

@[simp] theorem retransmissions_append (t : TransactionId) (a b : List Event) :
    retransmissions t (a ++ b) = retransmissions t a + retransmissions t b := List.countP_append

theorem retransmissions_told {r : Registration} {t : TransactionId} (id : r.txId = t) (n : Option Nat) :
    retransmissions t (told r n) = n.getD 0 := by
  cases n with
  | none => rfl
  | some n =>
    rw [told, retransmissions, List.countP_cons_of_neg (by simp), List.countP_cons_of_neg (by simp),
      List.countP_replicate,
      if_pos (decide_eq_true (show r.entry.txId = t from id))]
    rfl

/-- Nothing in the story before its end invokes a callback. -/
theorem not_mem_told {r : Registration} {n : Option Nat} {e : Event} {t : TransactionId}
    (calls : e.notifies? = some t) :
    e ∉ told r n := by
  intro member
  cases n with
  | none =>
    rw [List.mem_singleton.mp member] at calls
    cases calls
  | some n =>
    rcases List.mem_cons.mp member with rfl | later
    · cases calls
    rcases List.mem_cons.mp later with rfl | later
    · cases calls
    · rw [List.eq_of_mem_replicate later] at calls
      cases calls

namespace Closing

variable {r : Registration} {log : List Moment} {n : Option Nat} {closing : List Event}

theorem short (closed : Closing r log n closing) : closing.length ≤ 1 := by
  cases closed <;> simp

theorem no_retransmissions (closed : Closing r log n closing) (t : TransactionId) : retransmissions t closing = 0 := by
  cases closed <;> rfl

theorem not_registered (closed : Closing r log n closing) (r' : Registration) : .registered r' ∉ closing := by
  cases closed <;> simp

end Closing

/-- A callback is the end of the story. -/
theorem told_split {r : Registration} {n : Option Nat} {closing a b : List Event} {e : Event} {t : TransactionId}
    (short : closing.length ≤ 1) (calls : e.notifies? = some t) (split : told r n ++ closing = a ++ e :: b) :
    a = told r n ∧ closing = [e] ∧ b = [] := by
  rcases List.append_eq_append_iff.mp split with ⟨c, left, right⟩ | ⟨c, left, right⟩
  · rw [right, List.length_append, List.length_cons] at short
    have none : c = [] := List.eq_nil_of_length_eq_zero (by omega)
    have last : b = [] := List.eq_nil_of_length_eq_zero (by omega)
    subst none last
    exact ⟨by rw [left, List.append_nil], right, rfl⟩
  · cases c with
    | nil =>
      have here : closing = e :: b := right.symm
      rw [here, List.length_cons] at short
      have last : b = [] := List.eq_nil_of_length_eq_zero (by omega)
      rw [List.append_nil] at left
      exact ⟨left.symm, by rw [here, last], last⟩
    | cons first c =>
      obtain ⟨rfl, -⟩ := List.cons.inj right
      exact absurd (left ▸ by simp : e ∈ told r n) (not_mem_told calls)

namespace Life

variable {t : TransactionId} {s : ReliableSession} {log : List Moment}

/-- A registered transaction has a story, and an end to it if it is no longer pending. -/
theorem told_of_registered (life : Life t s log) {r : Registration} (member : .registered r ∈ events log)
    (id : r.txId = t) :
    ∃ n closing, Closing r log n closing ∧ (∀ k, n = some k → k ≤ r.maxRetries.toNat) ∧
      about t (events log) = told r n ++ closing := by
  have there : .registered r ∈ about t (events log) := List.mem_filter.mpr ⟨member, decide_eq_true id⟩
  have first : ∀ {r' : Registration} {n : Option Nat}, .registered r ∈ told r' n → r = r' := by
    intro r' n said
    cases n with
    | none => exact Event.registered.inj (List.mem_singleton.mp said)
    | some n => simpa [told] using said
  cases life with
  | unborn absent story =>
    rw [story] at there
    cases there
  | waiting r' p found request id' idle first' story =>
    rw [story] at there
    obtain rfl := first there
    exact ⟨none, [], .silent _, (fun k same => by cases same), by rw [story, List.append_nil]⟩
  | flying r' p found request id' inflight bounded onTime story =>
    rw [story] at there
    obtain rfl := first there
    have max : p.maxRetries = r.maxRetries := congrArg Registration.maxRetries request
    refine ⟨_, [], .silent _, fun k same => ?_, by rw [story, List.append_nil]⟩
    cases same
    rw [← max]
    exact UInt8.le_iff_toNat_le.mp bounded
  | gone r' n closing absent id' bounded closed story =>
    rw [story] at there
    rcases List.mem_append.mp there with said | last
    · obtain rfl := first said
      exact ⟨n, closing, closed, bounded, story⟩
    · exact absurd last (closed.not_registered r)

theorem accounts (life : Life t s log) {r : Registration} (member : .registered r ∈ events log) (id : r.txId = t) :
    Accounts r (events log) log := by
  subst id
  obtain ⟨n, closing, closed, bounded, story⟩ := life.told_of_registered member rfl
  constructor
  · rw [retransmissions_about, story, retransmissions_append, retransmissions_told rfl, closed.no_retransmissions]
    cases n with
    | none => exact Nat.zero_le _
    | some n => exact bounded n rfl
  · rw [timeouts_about, story, FloridUsb.Session.timeouts, List.count_append,
      List.count_eq_zero_of_not_mem (not_mem_told (e := .error r.txId .timeout) rfl), Nat.zero_add]
    exact Nat.le_trans List.count_le_length closed.short
  · intro pre post split
    have concerns : Event.concerns r.txId (.error r.txId .timeout) = true := decide_eq_true rfl
    have parts := story
    rw [split, about_append, about, about, List.filter_cons_of_pos concerns] at parts
    obtain ⟨front, last, -⟩ := told_split closed.short rfl parts.symm
    have front : about r.txId pre = told r n := front
    cases closed with
    | silent => cases last
    | answered => cases last
    | timedOut late =>
      constructor
      · apply List.mem_of_mem_filter (p := Event.concerns r.txId)
        show _ ∈ about r.txId pre
        rw [front, told]
        simp
      · rw [retransmissions_about, front, retransmissions_told rfl]
        rfl
  · intro since at_ handed out
    have last : .error r.txId .timeout ∈ closing := by
      have member := TimedOutAt.mem_about out
      rw [story] at member
      exact (List.mem_append.mp member).resolve_left (not_mem_told rfl)
    cases closed with
    | silent => cases last
    | answered n cmd bytes => cases List.mem_singleton.mp last
    | timedOut late => exact late since handed at_ out

/-- Nothing is sent for a request after its callback. -/
theorem silent_after (life : Life t s log) {pre post : List Event} {e : Event} (split : events log = pre ++ e :: post)
    (calls : e.notifies? = some t) : about t post = [] := by
  have concerns : e.concerns t = true := by
    cases e with
    | response u cmd bytes | error u err => exact decide_eq_true (Option.some.inj calls)
    | registered r | handedOut x | retransmitted x | requested cmd u result => cases calls
  have parts := congrArg (about t) split
  rw [about_append, about, about, about, List.filter_cons_of_pos concerns] at parts
  have here : e ∈ about t (events log) := by
    rw [split]
    exact List.mem_filter.mpr ⟨by simp, concerns⟩
  cases life with
  | unborn absent story =>
    rw [story] at here
    cases here
  | waiting r p found request id idle first story =>
    rw [story] at here
    exact absurd here (not_mem_told calls)
  | flying r p found request id inflight bounded onTime story =>
    rw [story] at here
    exact absurd here (not_mem_told calls)
  | gone r n closing absent id bounded closed story =>
    exact (told_split closed.short calls (story.symm.trans parts)).2.2

/-- The retry counter counts the retransmissions. -/
theorem retryCount_eq (life : Life t s log) {p : PendingEntry} (found : s.pendingByTx.find? t = some p) :
    p.retryCount.toNat = retransmissions t (events log) := by
  cases life with
  | unborn absent story => rw [found] at absent; cases absent
  | gone r n closing absent id bounded closed story => rw [found] at absent; cases absent
  | waiting r q there request id idle first story =>
    cases found.symm.trans there
    rw [retransmissions_about, story, retransmissions_told id, first]
    rfl
  | flying r q there request id inflight bounded onTime story =>
    cases found.symm.trans there
    rw [retransmissions_about, story, retransmissions_told id]
    rfl

end Life

/-! ### The order of the queue -/

/-- What was handed out and what waits stand in the order of registration. -/
def Queued (s : ReliableSession) (log : List Event) : Prop :=
  (handedTxs log ++ s.outboundQueue).Sublist (registeredTxs log)

namespace Queued

variable {s s' : ReliableSession} {log : List Event}

theorem extend (queued : Queued s log) {ev : List Event} (quiet : ∀ e, .handedOut e ∉ ev)
    (same : s'.outboundQueue = s.outboundQueue) : Queued s' (log ++ ev) := by
  rw [Queued, handedTxs, handedKeys_append, handedKeys_quiet quiet, List.append_nil, registeredTxs_append, same]
  exact List.Sublist.trans queued (List.sublist_append_left _ _)

theorem register (queued : Queued s log) (now : Time) (r : Registration) :
    Queued (s.registerPending now r) (log ++ [.registered r]) := by
  have quiet : handedKeys [Event.registered r] = [] := rfl
  rw [Queued, handedTxs, handedKeys_append, quiet, List.append_nil, registeredTxs_append]
  show (_ ++ (s.outboundQueue ++ [r.txId])).Sublist (_ ++ [r.txId])
  rw [← List.append_assoc]
  exact List.Sublist.append queued (List.Sublist.refl _)

theorem outbound (queued : Queued s log) (w : Window s log) (now : Time) :
    Queued (s.nextOutbound now).1 (log ++ ((s.nextOutbound now).2.map Event.handedOut).toList) := by
  rcases pump_cases now s s.outboundQueue with ⟨stale, rest, queue, -, -, done⟩ |
    ⟨stale, t, rest, p, queue, -, found, -, done⟩ <;>
    rw [nextOutbound, done] <;> rw [Queued, queue] at queued
  · rw [Option.map_none, Option.toList_none, List.append_nil]
    exact List.Sublist.trans ((List.sublist_append_right stale rest).append_left _) queued
  · have handed : handedTxs (log ++ [.handedOut p.toRetransmit]) = handedTxs log ++ [t] := by
      rw [handedTxs, handedKeys_append, List.map_append, ← w.keyed t p found]
      rfl
    have registered : registeredTxs (log ++ [.handedOut p.toRetransmit]) = registeredTxs log := by
      rw [registeredTxs_append]
      exact List.append_nil _
    rw [Option.map_some, Option.toList_some, Queued, handed, registered, List.append_assoc]
    exact List.Sublist.trans ((List.sublist_append_right stale (t :: rest)).append_left _) queued

theorem step (queued : Queued s log) (w : Window s log) (o : Op) :
    Queued (session.step s o).1 (log ++ (session.step s o).2) := by
  cases o with
  | registerPending now r => exact queued.register now r
  | onAck now t =>
    apply queued.extend (by simp [session, ReliableSession.step])
    show (s.onAck now t).outboundQueue = _
    rcases s.onAck_eq now t with same | ⟨p, -, -, done⟩
    · rw [same]
    · rw [done]
  | onResponse cmd t bytes =>
    apply queued.extend
    · intro e member
      obtain ⟨p, -, -, same⟩ := mem_onResponse member
      cases same
    · show (s.onResponse cmd t bytes).1.outboundQueue = _
      rcases s.onResponse_cases cmd t bytes with ⟨ring, done, -⟩ | ⟨ring, p, -, -, done⟩ <;> rw [done]
  | onRequest cmd t =>
    apply queued.extend (by simp [session, ReliableSession.step])
    show (s.onRequest cmd t).1.outboundQueue = _
    rw [s.onRequest_eq cmd t]
  | cacheResponse cmd t responseCmd bytes => exact queued.extend (by simp [session, ReliableSession.step]) rfl
  | poll now clock reentry =>
    show Queued _ (log ++ (_ ++ List.map Event.retransmitted _))
    rw [← List.append_assoc]
    have called : Queued (runCallbacks reentry (s.pollLoop now clock).1 (s.pollLoop now clock).2.callbacks).1
        (log ++ (runCallbacks reentry (s.pollLoop now clock).1 (s.pollLoop now clock).2.callbacks).2) := by
      refine runCallbacks_keeps (G := fun _ => True) (fun _ _ _ => trivial)
        (fun _ _ now r queued _ => queued.register now r)
        ?_ reentry _ ?_ trivial
      · exact fun s h t queued => extend queued (by simp) rfl
      · exact queued
    exact extend called (by simp) rfl
  | nextOutbound now => exact queued.outbound w now
  | resetDeviceState => exact queued.extend (by simp [session, ReliableSession.step]) rfl

theorem run (config : Config) (ops : List Op) (once : RegisteredOnce (session.trace (.init config) ops)) :
    Queued (session.exec (.init config) ops) (session.trace (.init config) ops) := by
  have both := session.run_invariant (s := .init config) (I := fun s log => Window s log ∧ Queued s log)
    (fun _ _ => RegisteredOnce.left) ⟨Window.init config, List.Sublist.refl _⟩
    (fun s log o ⟨w, queued⟩ once => ⟨w.step o once, queued.step w o⟩) ops once
  exact both.2

end Queued

/-- A request that `poll` returns is due. -/
theorem retransmitted_due {s : ReliableSession} {log : List Event} (w : Window s log) {now : Time}
    {clock : TransactionId → Time}
    {reentry : TransactionId → List (Time × Registration)} {x : RetransmitEntry}
    (member : .retransmitted x ∈ (session.step s (.poll now clock reentry)).2) :
    ∃ p, s.pendingByTx.find? x.txId = some p ∧ p.inflight = true ∧ p.deadline ≤ now := by
  have retried : .retransmitted x ∈ (s.pollLoop now clock).2.retries.map Event.retransmitted := by
    rcases List.mem_append.mp member with called | retried
    · rcases mem_runCallbacks called with ⟨_, same⟩ | ⟨_, same⟩ <;> cases same
    · exact retried
  obtain ⟨e, retry, same⟩ := List.mem_map.mp retried
  cases same
  obtain ⟨t, p, found, due, -, rfl⟩ := mem_retries_iff.mp retry
  have id : p.toRetransmit.txId = t := w.keyed t p found
  exact ⟨p, id ▸ found, PendingEntry.isDue_iff.mp due⟩

/-- **Retries and timeouts.** In a run that registers each transaction at most once, on a clock
that does not go back: requests are handed out once, in the order of registration; the accounts
of each request hold, and its retry counter counts its retransmissions; after its callback
nothing is sent for it; and `poll` returns only what is past its deadline. -/
theorem retry_accounting (config : Config) (ops : List Op) (once : RegisteredOnce (session.trace (.init config) ops))
    (up : NonDecreasing (timed.trace (.init config) ops)) :
    let log := session.trace (.init config) ops
    ((handedTxs log).Nodup ∧ (handedTxs log).Sublist (registeredTxs log)) ∧
    (∀ r, .registered r ∈ log → Accounts r log (timed.trace (.init config) ops)) ∧
    (∀ t p, (session.exec (.init config) ops).pendingByTx.find? t = some p →
      p.retryCount.toNat = retransmissions t log) ∧
    (∀ pre e post t, log = pre ++ e :: post → e.notifies? = some t →
      ∀ x, x.txId = t → .handedOut x ∉ post ∧ .retransmitted x ∉ post) ∧
    ∀ pre now clock reentry post, ops = pre ++ .poll now clock reentry :: post →
      ∀ x, .retransmitted x ∈ (session.step (session.exec (.init config) pre) (.poll now clock reentry)).2 →
        ∃ p, (session.exec (.init config) pre).pendingByTx.find? x.txId = some p ∧ p.inflight = true ∧
          p.deadline ≤ now := by
  intro log
  have life := Life.run config ops once up
  have same : events (timed.trace (.init config) ops) = log := (timed_run _ ops).2
  have order : (handedTxs log).Sublist (registeredTxs log) :=
    List.Sublist.trans (List.sublist_append_left _ _) (Queued.run config ops once)
  refine ⟨⟨once.sublist order, order⟩, ?_, ?_, ?_, ?_⟩
  · intro r member
    rw [← same] at member ⊢
    exact (life r.txId).accounts member rfl
  · intro t p found
    rw [← same]
    exact (life t).retryCount_eq found
  · intro pre e post t split calls x id
    have silent := (life t).silent_after (same.trans split) calls
    rw [about, List.filter_eq_nil_iff] at silent
    constructor <;> exact fun member => silent _ member (decide_eq_true id)
  · intro pre now clock reentry post split x member
    have before : RegisteredOnce (session.trace (.init config) pre) := by
      rw [split, session.trace_append] at once
      exact once.left
    exact retransmitted_due (notified_run config pre before).1 member

/-- One request with one retry: an acknowledgement delays it, and it times out all the same. -/
theorem retry_accounting_timeout :
    let request : Registration := ⟨1, 0x6103, 0x6104, [1, 2, 3], true, true, 100, 1⟩
    let ops : List Op := [.registerPending 0 request, .nextOutbound 5, .onAck 50 1,
        .poll 120 (fun _ => 120) (fun _ => []),
      .poll 150 (fun _ => 151) (fun _ => []), .poll 251 (fun _ => 251) (fun _ => [])]
    let log := session.trace (.init {}) ops
    retransmissions 1 log = 1 ∧ timeouts 1 log = 1 ∧ Accounts request log (timed.trace (.init {}) ops) := by
  intro request ops log
  have once : RegisteredOnce log := by
    show (registeredTxs _).Nodup
    decide
  have up : NonDecreasing (timed.trace (.init {}) ops) := by
    show (clockReadings _).Pairwise _
    decide
  have accounts := (retry_accounting {} ops once up).2.1 request (by decide)
  exact ⟨by decide, by decide, accounts⟩

end FloridUsb.Session
