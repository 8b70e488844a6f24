import FloridUsb.Lib.Machine
import FloridUsb.Session.State

/-!
# Runs of a session

A session as a machine: its operations in any order, with any arguments and clock readings.
What each operation does to the pending map is said once here, by lookups and counts, and
the invariants of the later modules are read off from that.
-/

namespace FloridUsb.Session
set_option autoImplicit false

open Lib

inductive Op where
  | registerPending (now : Time) (r : Registration)
  | onAck (now : Time) (txId : TransactionId)
  | onResponse (cmd : UInt16) (txId : TransactionId) (bytes : List UInt8)
  | onRequest (cmd : UInt16) (txId : TransactionId)
  | cacheResponse (cmd : UInt16) (txId : TransactionId) (responseCmd : UInt16) (responseBytes : List UInt8)
  | poll (now : Time) (clock : TransactionId → Time) (reentry : TransactionId → List (Time × Registration))
  | nextOutbound (now : Time)
  | resetDeviceState

/-- The operations of the host side. -/
def Op.hostSide : Op → Bool
  | .registerPending _ _ | .onAck _ _ | .onResponse _ _ _ | .poll _ _ _ | .nextOutbound _ => true
  | .onRequest _ _ | .cacheResponse _ _ _ _ | .resetDeviceState => false

namespace ReliableSession

def step (s : ReliableSession) : Op → ReliableSession × List Event
  | .registerPending now r => (s.registerPending now r, [.registered r])
  | .onAck now txId => (s.onAck now txId, [])
  | .onResponse cmd txId bytes => s.onResponse cmd txId bytes
  | .onRequest cmd txId => ((s.onRequest cmd txId).1, [.requested cmd txId (s.onRequest cmd txId).2])
  | .cacheResponse cmd txId responseCmd responseBytes => (s.cacheResponse cmd txId responseCmd responseBytes, [])
  | .poll now clock reentry =>
    let r := s.poll now clock reentry
    (r.1, r.2.1 ++ r.2.2.map .retransmitted)
  | .nextOutbound now => ((s.nextOutbound now).1, ((s.nextOutbound now).2.map .handedOut).toList)
  | .resetDeviceState => (s.resetDeviceState, [])

end ReliableSession

/-- A session as a machine. -/
def session : Machine ReliableSession Op Event where
  step := ReliableSession.step

/-! ### What a log says -/

def Event.registers? : Event → Option TransactionId
  | .registered r => some r.txId
  | _ => none

/-- The transactions registered, in order. -/
def registeredTxs (log : List Event) : List TransactionId := log.filterMap Event.registers?

@[simp] theorem registeredTxs_append (a b : List Event) :
    registeredTxs (a ++ b) = registeredTxs a ++ registeredTxs b := List.filterMap_append

/-- Each transaction is registered at most once. -/
def RegisteredOnce (log : List Event) : Prop := (registeredTxs log).Nodup

theorem RegisteredOnce.left {a b : List Event} (h : RegisteredOnce (a ++ b)) : RegisteredOnce a := by
  rw [RegisteredOnce, registeredTxs_append] at h
  exact h.of_append_left

/-- A transaction registered now was not registered before. -/
theorem RegisteredOnce.fresh {h : List Event} {r : Registration} (once : RegisteredOnce (h ++ [.registered r])) :
    r.txId ∉ registeredTxs h := by
  rw [RegisteredOnce, registeredTxs_append, List.nodup_append] at once
  intro member
  exact once.2.2 _ member _ List.mem_cons_self rfl

/-- The registration that an event is for a transaction. -/
def Event.registers (txId : TransactionId) : Event → Option Registration
  | .registered r => if r.txId = txId then some r else none
  | _ => none

/-- The last registration of a transaction. -/
def lastRegistered (txId : TransactionId) (log : List Event) :
    Option Registration := (log.filterMap (Event.registers txId)).getLast?

theorem lastRegistered_append (txId : TransactionId) (a b : List Event) :
    lastRegistered txId (a ++ b) = (lastRegistered txId b).or (lastRegistered txId a) := by
  rw [lastRegistered, List.filterMap_append, List.getLast?_append]
  rfl

theorem lastRegistered_registered (txId : TransactionId) (log : List Event) (r : Registration) :
    lastRegistered txId (log ++ [.registered r]) = if r.txId = txId then some r else lastRegistered txId log := by
  rw [lastRegistered_append]
  by_cases own : r.txId = txId
  · rw [if_pos own]
    simp [lastRegistered, Event.registers, own]
  · rw [if_neg own]
    simp [lastRegistered, Event.registers, own]

theorem lastRegistered_quiet (txId : TransactionId) {log ev : List Event} (quiet : ∀ r, .registered r ∉ ev) :
    lastRegistered txId (log ++ ev) = lastRegistered txId log := by
  have nothing : ev.filterMap (Event.registers txId) = [] := by
    apply List.filterMap_eq_nil_iff.mpr
    intro e member
    cases e with
    | registered r => exact absurd member (quiet r)
    | _ => rfl
  rw [lastRegistered_append, lastRegistered, nothing]
  rfl

theorem mem_of_lastRegistered {txId : TransactionId} {log : List Event} {r : Registration}
    (last : lastRegistered txId log = some r) : .registered r ∈ log ∧ r.txId = txId := by
  obtain ⟨e, member, registers⟩ := List.mem_filterMap.mp (List.mem_of_getLast? last)
  cases e with
  | registered r' =>
    rw [Event.registers] at registers
    split at registers
    · cases registers
      exact ⟨member, ‹_›⟩
    · cases registers
  | _ => cases registers

/-- What an entry keeps of its registration for as long as it is pending. -/
def PendingEntry.request (p : PendingEntry) : Registration :=
  ⟨p.txId, p.requestCmd, p.responseCmd, p.requestBytes, p.onResponse, p.onError, p.timeout, p.maxRetries⟩

/-- A registration as it is stored: the bytes are cut at the size of the array. -/
def Registration.stored (r : Registration) : Registration :=
  { r with requestBytes := r.requestBytes.take MAX_PACKET_SIZE }

theorem PendingEntry.toRetransmit_eq {p q : PendingEntry} (same : p.request = q.request) :
    p.toRetransmit = q.toRetransmit := by
  obtain ⟨id, cmd, -, bytes, -⟩ := Registration.mk.inj same
  rw [toRetransmit, toRetransmit, id, cmd, bytes]

/-! ### The pending map, operation by operation -/

namespace ReliableSession

variable {s : ReliableSession}

/-- Every entry of the second session is one of the first, for the same request and as much in
flight. -/
def Carries (s s' : ReliableSession) : Prop :=
  ∀ t p, s'.pendingByTx.find? t = some p →
    ∃ q, s.pendingByTx.find? t = some q ∧ p.request = q.request ∧ p.inflight = q.inflight

theorem Carries.of_eq {s' : ReliableSession} (same : s'.pendingByTx = s.pendingByTx) : s.Carries s' := by
  intro t p found
  exact ⟨p, same ▸ found, rfl, rfl⟩

/-- Every entry still has the number it is pending under. -/
theorem Carries.keyed {s' : ReliableSession} (carries : s.Carries s')
    (keyed : ∀ t p, s.pendingByTx.find? t = some p → p.txId = t) :
    ∀ t p, s'.pendingByTx.find? t = some p → p.txId = t := by
  intro t p found
  obtain ⟨q, before, same, -⟩ := carries t p found
  have id : p.txId = q.txId := congrArg Registration.txId same
  exact id.trans (keyed t q before)

theorem registerPending_keyed (keyed : ∀ t p, s.pendingByTx.find? t = some p → p.txId = t) (now : Time)
    (r : Registration) : ∀ t p, (s.registerPending now r).pendingByTx.find? t = some p → p.txId = t := by
  intro t p found
  simp only [registerPending, DenseMap.find?_insertOrAssign] at found
  split at found
  · rename_i same
    cases found
    exact same.symm
  · exact keyed t p found

/-- How many pending entries are in flight. -/
def inflightEntries (s : ReliableSession) : Nat := s.pendingByTx.entries.countP (·.2.inflight)

theorem onAck_eq (s : ReliableSession) (now : Time) (txId : TransactionId) :
    s.onAck now txId = s ∨
      ∃ p, s.pendingByTx.find? txId = some p ∧ p.inflight = true ∧ s.onAck now txId =
        { s with pendingByTx := s.pendingByTx.insertOrAssign txId { p with deadline := now + p.timeout } } := by
  unfold onAck
  cases found : s.pendingByTx.find? txId with
  | none => exact .inl rfl
  | some p =>
    by_cases inflight : p.inflight = true
    · exact .inr ⟨p, rfl, inflight, if_pos inflight⟩
    · exact .inl (if_neg inflight)

theorem onAck_carries (s : ReliableSession) (now : Time) (txId : TransactionId) : s.Carries (s.onAck now txId) := by
  rcases s.onAck_eq now txId with same | ⟨q, hq, -, done⟩
  · rw [same]
    exact .of_eq rfl
  · intro t p found
    rw [done, DenseMap.find?_insertOrAssign] at found
    split at found
    · rename_i here
      cases found
      exact ⟨q, here ▸ hq, rfl, rfl⟩
    · exact ⟨p, found, rfl, rfl⟩

/-- `on_response` on a seen key or an unknown transaction leaves the pending map alone;
otherwise the entry goes, and its callback is invoked if the response has the right type. -/
theorem onResponse_cases (s : ReliableSession) (cmd : UInt16) (txId : TransactionId) (bytes : List UInt8) :
    (∃ ring, s.onResponse cmd txId bytes = ({ s with seenResponses := ring }, []) ∧
      (composeDedupKey cmd txId ∈ s.seenResponses.ids ∨ s.pendingByTx.find? txId = none)) ∨
    ∃ ring p, composeDedupKey cmd txId ∉ s.seenResponses.ids ∧ s.pendingByTx.find? txId = some p ∧
      s.onResponse cmd txId bytes =
        ({ s with
            seenResponses := ring
            inflightCount := countWithout s.inflightCount p
            pendingByTx := s.pendingByTx.erase txId },
          if p.responseCmd = cmd ∧ p.onResponse then [.response p.txId cmd bytes] else []) := by
  by_cases seen : composeDedupKey cmd txId ∈ s.seenResponses.ids
  · refine .inl ⟨s.seenResponses, ?_, .inl seen⟩
    simp only [onResponse, IdRingBuffer.testAndInsert_seen seen]
  · have new := IdRingBuffer.testAndInsert_new seen
    generalize (s.seenResponses.testAndInsert (composeDedupKey cmd txId)).1 = ring at new
    cases found : s.pendingByTx.find? txId with
    | none =>
      refine .inl ⟨ring, ?_, .inr rfl⟩
      simp only [onResponse, new, found]
    | some p =>
      refine .inr ⟨ring, p, seen, rfl, ?_⟩
      simp only [onResponse, new, found]
      split <;> rfl

theorem onResponse_carries (s : ReliableSession) (cmd : UInt16) (txId : TransactionId) (bytes : List UInt8) :
    s.Carries (s.onResponse cmd txId bytes).1 := by
  rcases s.onResponse_cases cmd txId bytes with ⟨ring, done, -⟩ | ⟨ring, q, -, -, done⟩ <;> rw [done]
  · exact .of_eq rfl
  · intro t p found
    rw [DenseMap.find?_erase] at found
    split at found
    · cases found
    · exact ⟨p, found, rfl, rfl⟩

/-- A response callback is that of the pending request, for a response of its type. -/
theorem mem_onResponse {cmd : UInt16} {txId : TransactionId} {bytes : List UInt8} {e : Event}
    (member : e ∈ (s.onResponse cmd txId bytes).2) :
    ∃ p, s.pendingByTx.find? txId = some p ∧ p.responseCmd = cmd ∧ e = .response p.txId cmd bytes := by
  rcases s.onResponse_cases cmd txId bytes with ⟨ring, done, -⟩ | ⟨ring, p, -, found, done⟩ <;> rw [done] at member
  · cases member
  · simp only at member
    split at member
    · rename_i fits
      exact ⟨p, found, fits.1, List.mem_singleton.mp member⟩
    · cases member

/-- `on_request` touches the ring of seen requests only. -/
theorem onRequest_eq (s : ReliableSession) (cmd : UInt16) (txId : TransactionId) :
    (s.onRequest cmd txId).1 =
      { s with seenRequests := (s.seenRequests.testAndInsert (composeDedupKey cmd txId)).1 } := by
  by_cases seen : composeDedupKey cmd txId ∈ s.seenRequests.ids
  · simp only [onRequest, IdRingBuffer.testAndInsert_seen seen]
  · have new := IdRingBuffer.testAndInsert_new seen
    generalize (s.seenRequests.testAndInsert (composeDedupKey cmd txId)).1 = ring at new ⊢
    simp only [onRequest, new]

end ReliableSession

/-! ### The loop of `poll` -/

namespace PendingEntry

/-- The entry has waited out its deadline. -/
def isDue (now : Time) (p : PendingEntry) : Bool := p.inflight && decide (p.deadline ≤ now)

/-- The entry is due and has no retry left. -/
def expires (now : Time) (p : PendingEntry) : Bool := p.isDue now && decide (p.maxRetries ≤ p.retryCount)

variable {p : PendingEntry} {now : Time}

theorem isDue_iff : p.isDue now = true ↔ p.inflight = true ∧ p.deadline ≤ now := by
  rw [isDue, Bool.and_eq_true, decide_eq_true_eq]

theorem isDue_of_expires (expired : p.expires now = true) : p.isDue now = true := by
  rw [expires, Bool.and_eq_true] at expired
  exact expired.1

theorem expires_iff (due : p.isDue now = true) : p.expires now = true ↔ p.maxRetries ≤ p.retryCount := by
  rw [expires, due, Bool.true_and, decide_eq_true_eq]

theorem spent_of_expires (expired : p.expires now = true) :
    (p.inflight = true ∧ p.deadline ≤ now) ∧ p.maxRetries ≤ p.retryCount :=
  have due := isDue_of_expires expired
  ⟨isDue_iff.mp due, (expires_iff due).mp expired⟩

theorem expires_of_idle (idle : p.isDue now = false) : p.expires now = false := by
  rw [expires, idle, Bool.false_and]

theorem retryCount_lt (due : p.isDue now = true) (lives : p.expires now = false) :
    p.retryCount.toNat < p.maxRetries.toNat := by
  rw [Bool.eq_false_iff, ne_eq, expires_iff due] at lives
  exact UInt8.lt_iff_toNat_lt.mp (UInt8.not_le.mp lives)

/-- Below the limit the counter cannot wrap. -/
theorem retryCount_succ (left : p.retryCount.toNat < p.maxRetries.toNat) :
    (p.retryCount + 1).toNat = p.retryCount.toNat + 1 := by
  have bound := p.maxRetries.toNat_lt
  rw [UInt8.toNat_add]
  exact Nat.mod_eq_of_lt (by simp only [UInt8.toNat_one]; omega)

end PendingEntry

namespace ReliableSession

variable {s : ReliableSession} {now : Time} {clock : TransactionId → Time}

/-- The loop of `poll` keeps an entry as it is, drops it, or counts a retry. -/
theorem pollKeeps_cases (now : Time) (clock : TransactionId → Time) (e : TransactionId × PendingEntry) :
    (e.2.isDue now = false ∧ pollKeeps now clock e = some e.2 ∧ ∀ acc, pollCollects now acc e = acc) ∨
    (e.2.expires now = true ∧ pollKeeps now clock e = none ∧ ∀ acc, pollCollects now acc e =
      { acc with
        inflightCount := acc.inflightCount - 1
        callbacks := acc.callbacks ++ [(e.2.txId, e.2.onError)] }) ∨
    (e.2.isDue now = true ∧ e.2.expires now = false ∧
      pollKeeps now clock e =
        some { e.2 with retryCount := e.2.retryCount + 1, deadline := clock e.1 + e.2.timeout } ∧
      ∀ acc, pollCollects now acc e = { acc with retries := acc.retries ++ [e.2.toRetransmit] }) := by
  by_cases due : e.2.isDue now = true
  swap
  · have skip : ¬ e.2.inflight ∨ now < e.2.deadline := by
      rw [PendingEntry.isDue_iff, not_and] at due
      by_cases inflight : e.2.inflight = true
      · exact .inr (Int.not_le.mp (due inflight))
      · exact .inl inflight
    refine .inl ⟨by simpa using due, if_pos skip, fun acc => if_pos skip⟩
  obtain ⟨inflight, reached⟩ := PendingEntry.isDue_iff.mp due
  have stays : ¬ (¬ e.2.inflight ∨ now < e.2.deadline) := by
    rintro (idle | early)
    · exact idle inflight
    · exact absurd reached (Int.not_le.mpr early)
  by_cases spent : e.2.retryCount ≥ e.2.maxRetries
  · refine .inr (.inl ⟨by simp [PendingEntry.expires, due, spent], ?_, fun acc => ?_⟩)
    · rw [pollKeeps, if_neg stays, if_pos spent]
    · rw [pollCollects, if_neg stays, if_pos spent, countWithout]
      by_cases pos : acc.inflightCount > 0
      · rw [if_pos ⟨inflight, pos⟩]
      · rw [if_neg fun h => pos h.2, show acc.inflightCount - 1 = acc.inflightCount by omega]
  · refine .inr (.inr ⟨due, by simp [PendingEntry.expires, spent], ?_, fun acc => ?_⟩)
    · rw [pollKeeps, if_neg stays, if_neg spent]
    · rw [pollCollects, if_neg stays, if_neg spent]

section Decided

variable {e : TransactionId × PendingEntry}

theorem pollKeeps_idle (idle : e.2.isDue now = false) : pollKeeps now clock e = some e.2 := by
  rcases pollKeeps_cases now clock e with ⟨-, keeps, -⟩ | ⟨expired, -, -⟩ | ⟨due, -, -, -⟩
  · exact keeps
  · rw [PendingEntry.expires_of_idle idle] at expired
    cases expired
  · rw [idle] at due
    cases due

theorem pollCollects_idle (idle : e.2.isDue now = false) (acc : PollAcc) : pollCollects now acc e = acc := by
  rcases pollKeeps_cases now (fun _ => 0) e with ⟨-, -, same⟩ | ⟨expired, -, -⟩ | ⟨due, -, -, -⟩
  · exact same acc
  · rw [PendingEntry.expires_of_idle idle] at expired
    cases expired
  · rw [idle] at due
    cases due

/-- Only what has expired is dropped. -/
theorem pollKeeps_eq_none_iff : pollKeeps now clock e = none ↔ e.2.expires now = true := by
  rcases pollKeeps_cases now clock e with ⟨idle, keeps, -⟩ | ⟨expired, drops, -⟩ | ⟨-, lives, keeps, -⟩
  · rw [keeps, PendingEntry.expires_of_idle idle]
    simp
  · rw [drops, expired]
    simp
  · rw [keeps, lives]
    simp

theorem pollKeeps_retry (due : e.2.isDue now = true) (lives : e.2.expires now = false) :
    pollKeeps now clock e =
      some { e.2 with retryCount := e.2.retryCount + 1, deadline := clock e.1 + e.2.timeout } := by
  rcases pollKeeps_cases now clock e with ⟨idle, -, -⟩ | ⟨expired, -, -⟩ | ⟨-, -, keeps, -⟩
  · rw [due] at idle
    cases idle
  · rw [lives] at expired
    cases expired
  · exact keeps

end Decided

/-- The order in which the loop visits the entries, and what it makes of them. -/
theorem pollLoop_visits (s : ReliableSession) (now : Time) (clock : TransactionId → Time) :
    ∃ visits : List (TransactionId × PendingEntry), visits.Perm s.pendingByTx.entries ∧
      (s.pollLoop now clock).1.pendingByTx.entries =
        visits.filterMap (fun e => (pollKeeps now clock e).map (Prod.mk e.1)) ∧
      (s.pollLoop now clock).2 = visits.foldl (pollCollects now) { inflightCount := s.inflightCount } :=
  DenseMap.sweep_spec (f := fun acc e => (pollKeeps now clock e, pollCollects now acc e)) (g := pollKeeps now clock)
    (fun _ _ => rfl) s.pendingByTx { inflightCount := s.inflightCount }

/-- The entries after the loop of `poll`. -/
theorem pollLoop_find (s : ReliableSession) (now : Time) (clock : TransactionId → Time) (txId : TransactionId) :
    (s.pollLoop now clock).1.pendingByTx.find? txId =
      (s.pendingByTx.find? txId).bind fun p => pollKeeps now clock (txId, p) :=
  DenseMap.find?_sweep (f := fun acc e => (pollKeeps now clock e, pollCollects now acc e)) (g := pollKeeps now clock)
    (fun _ _ => rfl) s.pendingByTx { inflightCount := s.inflightCount } txId

theorem pollLoop_carries (s : ReliableSession) (now : Time) (clock : TransactionId → Time) :
    s.Carries (s.pollLoop now clock).1 := by
  intro t p found
  rw [pollLoop_find] at found
  obtain ⟨q, hq, kept⟩ := Option.bind_eq_some_iff.mp found
  rcases pollKeeps_cases now clock (t, q) with ⟨-, keeps, -⟩ | ⟨-, keeps, -⟩ | ⟨-, -, keeps, -⟩ <;>
    rw [keeps] at kept <;> cases kept
  · exact ⟨q, hq, rfl, rfl⟩
  · exact ⟨q, hq, rfl, rfl⟩

/-- The due callbacks are those of the expired entries. -/
theorem collected_callbacks (visits : List (TransactionId × PendingEntry)) (acc : PollAcc) :
    (visits.foldl (pollCollects now) acc).callbacks =
      acc.callbacks ++ (visits.filter (·.2.expires now)).map fun e => (e.2.txId, e.2.onError) := by
  induction visits generalizing acc with
  | nil => simp
  | cons e visits ih =>
    rw [List.foldl_cons, ih]
    rcases pollKeeps_cases now (fun _ => 0) e with ⟨idle, -, same⟩ | ⟨expired, -, drops⟩ | ⟨-, lives, -, retries⟩
    · have lives : e.2.expires now = false := PendingEntry.expires_of_idle idle
      rw [same, List.filter_cons_of_neg (by simp [lives])]
    · rw [drops, List.filter_cons_of_pos (by simp [expired]), List.map_cons, List.append_assoc]
      rfl
    · rw [retries, List.filter_cons_of_neg (by simp [lives])]

/-- The retries are those of the due entries that have not expired. -/
theorem collected_retries (visits : List (TransactionId × PendingEntry)) (acc : PollAcc) :
    (visits.foldl (pollCollects now) acc).retries =
      acc.retries ++ (visits.filter fun e => e.2.isDue now && !e.2.expires now).map fun e => e.2.toRetransmit := by
  induction visits generalizing acc with
  | nil => simp
  | cons e visits ih =>
    rw [List.foldl_cons, ih]
    rcases pollKeeps_cases now (fun _ => 0) e with ⟨idle, -, same⟩ | ⟨expired, -, drops⟩ | ⟨due, lives, -, retries⟩
    · rw [same, List.filter_cons_of_neg (by simp [idle])]
    · rw [drops, List.filter_cons_of_neg (by simp [expired])]
    · rw [retries, List.filter_cons_of_pos (by simp [due, lives]), List.map_cons, List.append_assoc]
      rfl

/-- A due callback is that of an expired entry. -/
theorem mem_callbacks (keyed : ∀ t p, s.pendingByTx.find? t = some p → p.txId = t) {u : TransactionId} {present : Bool}
    (member : (u, present) ∈ (s.pollLoop now clock).2.callbacks) :
    ∃ p, s.pendingByTx.find? u = some p ∧ p.expires now = true := by
  obtain ⟨visits, perm, -, acc⟩ := pollLoop_visits s now clock
  rw [acc, collected_callbacks, List.nil_append] at member
  obtain ⟨⟨v, p⟩, visited, same⟩ := List.mem_map.mp member
  obtain ⟨visited, expired⟩ := List.mem_filter.mp visited
  have found := DenseMap.find?_eq_some.mpr (perm.mem_iff.mp visited)
  have id : u = v := (congrArg Prod.fst same).symm.trans (keyed v p found)
  exact ⟨p, id ▸ found, expired⟩

/-- Retries are made for the entries that are due and have a retry left. -/
theorem mem_retries_iff {e : RetransmitEntry} : e ∈ (s.pollLoop now clock).2.retries ↔
    ∃ t p, s.pendingByTx.find? t = some p ∧ p.isDue now = true ∧ p.expires now = false ∧ e = p.toRetransmit := by
  obtain ⟨visits, perm, -, acc⟩ := pollLoop_visits s now clock
  rw [acc, collected_retries, List.nil_append, List.mem_map]
  constructor
  · rintro ⟨⟨t, p⟩, retried, rfl⟩
    obtain ⟨visited, retried⟩ := List.mem_filter.mp retried
    simp only [Bool.and_eq_true, Bool.not_eq_true'] at retried
    exact ⟨t, p, DenseMap.find?_eq_some.mpr (perm.mem_iff.mp visited), retried.1, retried.2, rfl⟩
  · rintro ⟨t, p, found, due, lives, rfl⟩
    refine ⟨(t, p), List.mem_filter.mpr ⟨perm.mem_iff.mpr (DenseMap.find?_eq_some.mp found), ?_⟩, rfl⟩
    simp only [due, lives, Bool.not_false, Bool.and_self]

/-- A retry is made for an entry that is in flight. -/
theorem mem_retries {e : RetransmitEntry} (member : e ∈ (s.pollLoop now clock).2.retries) :
    ∃ t p, s.pendingByTx.find? t = some p ∧ p.inflight = true ∧ e = p.toRetransmit := by
  obtain ⟨t, p, found, due, -, same⟩ := mem_retries_iff.mp member
  exact ⟨t, p, found, (PendingEntry.isDue_iff.mp due).1, same⟩

theorem collected_fewer (now : Time) (visits : List (TransactionId × PendingEntry)) (acc : PollAcc) :
    (visits.foldl (pollCollects now) acc).inflightCount ≤ acc.inflightCount := by
  induction visits generalizing acc with
  | nil => exact Nat.le_refl _
  | cons e visits ih =>
    rw [List.foldl_cons]
    rcases pollKeeps_cases now (fun _ => 0) e with ⟨-, -, same⟩ | ⟨-, -, drops⟩ | ⟨-, -, -, retries⟩
    · rw [same]
      exact ih acc
    · rw [drops]
      exact Nat.le_trans (ih _) (Nat.sub_le _ 1)
    · rw [retries]
      exact ih _

/-- The count goes down with the entries in flight. -/
theorem collected_inflight (now : Time) (clock : TransactionId → Time)
    (visits : List (TransactionId × PendingEntry)) (acc : PollAcc)
    (enough : visits.countP (·.2.inflight) ≤ acc.inflightCount) :
    (visits.foldl (pollCollects now) acc).inflightCount + visits.countP (·.2.inflight) =
      acc.inflightCount +
        (visits.filterMap fun e => (pollKeeps now clock e).map (Prod.mk e.1)).countP (·.2.inflight) := by
  induction visits generalizing acc with
  | nil => rfl
  | cons e visits ih =>
    rw [List.countP_cons] at enough ⊢
    rw [List.foldl_cons, List.filterMap_cons]
    rcases pollKeeps_cases now clock e with ⟨-, keeps, same⟩ | ⟨expired, keeps, drops⟩ | ⟨due, -, keeps, retries⟩
    · rw [same, keeps]
      have := ih acc (by omega)
      simp only [Option.map_some, List.countP_cons]
      omega
    · have inflight : e.2.inflight = true := (PendingEntry.spent_of_expires expired).1.1
      rw [if_pos inflight] at enough ⊢
      rw [drops, keeps]
      have := ih { acc with
        inflightCount := acc.inflightCount - 1, callbacks := acc.callbacks ++ [(e.2.txId, e.2.onError)] } (by
          show _ ≤ acc.inflightCount - 1
          omega)
      simp only [Option.map_none] at this ⊢
      omega
    · rw [retries, keeps]
      have := ih { acc with retries := acc.retries ++ [e.2.toRetransmit] } (by
        show _ ≤ acc.inflightCount
        omega)
      simp only [Option.map_some, List.countP_cons] at this ⊢
      omega

/-! ### The count of the requests in flight -/

/-- Entries may leave the map, and may change but for their request and their flag, and the
counter goes down with those in flight. -/
structure Frees (s s' : ReliableSession) : Prop where
  carries : s.Carries s'
  config : s'.config = s.config
  queue : s'.outboundQueue = s.outboundQueue
  balance : s'.inflightCount + s.inflightEntries = s.inflightCount + s'.inflightEntries
  fewer : s'.inflightEntries ≤ s.inflightEntries

/-- Nothing has changed that matters here. -/
theorem Frees.of_eq {s s' : ReliableSession} (config : s'.config = s.config)
    (queue : s'.outboundQueue = s.outboundQueue) (pending : s'.pendingByTx = s.pendingByTx)
    (count : s'.inflightCount = s.inflightCount) : s.Frees s' := by
  have entries : s'.inflightEntries = s.inflightEntries := by rw [inflightEntries, pending, inflightEntries]
  exact ⟨.of_eq pending, config, queue, by rw [count, entries], Nat.le_of_eq entries⟩

/-- An entry is as much in flight as before. -/
theorem inflightEntries_assign {t : TransactionId} {p q : PendingEntry} (found : s.pendingByTx.find? t = some p)
    (flag : q.inflight = p.inflight) :
    (s.pendingByTx.insertOrAssign t q).entries.countP (·.2.inflight) = s.inflightEntries := by
  have count := DenseMap.countP_insertOrAssign_old (fun e : TransactionId × PendingEntry => e.2.inflight) q found
  simp only [flag, Nat.add_right_cancel_iff] at count
  exact count

theorem onAck_frees (s : ReliableSession) (now : Time) (t : TransactionId) : s.Frees (s.onAck now t) := by
  have carries := s.onAck_carries now t
  rcases s.onAck_eq now t with same | ⟨p, found, -, done⟩
  · rw [same]
    exact .of_eq rfl rfl rfl rfl
  · rw [done] at carries ⊢
    have entries := inflightEntries_assign (q := { p with deadline := now + p.timeout }) found rfl
    exact ⟨carries, rfl, rfl, congrArg (s.inflightCount + ·) entries.symm, Nat.le_of_eq entries⟩

theorem onResponse_frees (s : ReliableSession) (cmd : UInt16) (t : TransactionId) (bytes : List UInt8)
    (enough : s.inflightEntries ≤ s.inflightCount) : s.Frees (s.onResponse cmd t bytes).1 := by
  have carries := s.onResponse_carries cmd t bytes
  rcases s.onResponse_cases cmd t bytes with ⟨ring, done, -⟩ | ⟨ring, p, -, found, done⟩ <;> rw [done] at carries ⊢
  · exact .of_eq rfl rfl rfl rfl
  have count := DenseMap.countP_erase (fun e : TransactionId × PendingEntry => e.2.inflight) found
  simp only [inflightEntries] at enough
  refine ⟨carries, rfl, rfl, ?_, ?_⟩
  · simp only [inflightEntries, countWithout]
    by_cases flag : p.inflight = true
    · rw [if_pos flag] at count
      rw [if_pos ⟨flag, by omega⟩]
      omega
    · rw [if_neg flag] at count
      rw [if_neg fun both => flag both.1]
      omega
  · simp only [inflightEntries]
    omega

/-- The loop of `poll` drops expired entries from the map and from the count alike. -/
theorem pollLoop_frees (s : ReliableSession) (now : Time) (clock : TransactionId → Time)
    (enough : s.inflightEntries ≤ s.inflightCount) : s.Frees (s.pollLoop now clock).1 := by
  obtain ⟨visits, perm, entries, acc⟩ := pollLoop_visits s now clock
  have visited : visits.countP (·.2.inflight) = s.inflightEntries := perm.countP_eq _
  have count := collected_inflight now clock visits { inflightCount := s.inflightCount }
    (Nat.le_trans (Nat.le_of_eq visited) enough)
  have fewer := collected_fewer now visits { inflightCount := s.inflightCount }
  rw [← acc] at fewer
  rw [← acc, visited, ← entries] at count
  refine ⟨s.pollLoop_carries now clock, rfl, rfl, count, ?_⟩
  simp only [inflightEntries] at count fewer ⊢
  omega

/-! ### The window -/

/-- `next_outbound` skips the queued transactions that are no longer pending, and stops at
the end of the queue, at a full window, or with an entry handed out. -/
theorem pump_cases (now : Time) (s : ReliableSession) (queue : List TransactionId) :
    (∃ stale rest, queue = stale ++ rest ∧ (∀ t ∈ stale, s.pendingByTx.find? t = none) ∧
      (rest = [] ∨ s.config.windowSize ≤ s.inflightCount) ∧
      pump now s queue = ({ s with outboundQueue := rest }, none)) ∨
    ∃ stale txId rest p, queue = stale ++ txId :: rest ∧ (∀ t ∈ stale, s.pendingByTx.find? t = none) ∧
      s.pendingByTx.find? txId = some p ∧ s.inflightCount < s.config.windowSize ∧
      pump now s queue =
        ({ s with
            outboundQueue := rest
            pendingByTx := s.pendingByTx.insertOrAssign txId { p with inflight := true, deadline := now + p.timeout }
            inflightCount := s.inflightCount + 1 }, some p.toRetransmit) := by
  have nothing : ∀ t ∈ ([] : List TransactionId), s.pendingByTx.find? t = none := by simp
  induction queue with
  | nil => exact .inl ⟨[], [], rfl, nothing, .inl rfl, rfl⟩
  | cons txId queue ih =>
    by_cases room : s.inflightCount < s.config.windowSize
    swap
    · refine .inl ⟨[], txId :: queue, rfl, nothing, .inr (by omega), ?_⟩
      rw [pump, if_neg room]
    cases found : s.pendingByTx.find? txId with
    | some p =>
      refine .inr ⟨[], txId, queue, p, rfl, nothing, found, room, ?_⟩
      simp only [pump, room, if_true, found]
      rfl
    | none =>
      have skip : pump now s (txId :: queue) = pump now s queue := by
        simp only [pump, room, if_true, found]
      have stale : ∀ front : List TransactionId, (∀ t ∈ front, s.pendingByTx.find? t = none) →
          ∀ t ∈ txId :: front, s.pendingByTx.find? t = none := by
        intro front gone t member
        rcases List.mem_cons.mp member with rfl | later
        · exact found
        · exact gone t later
      rw [skip]
      rcases ih with ⟨front, rest, rfl, gone, stop, done⟩ | ⟨front, next, rest, p, rfl, gone, found', room', done⟩
      · exact .inl ⟨txId :: front, rest, rfl, stale front gone, stop, done⟩
      · exact .inr ⟨txId :: front, next, rest, p, rfl, stale front gone, found', room', done⟩

/-- What is handed out is a pending entry. -/
theorem nextOutbound_mem {now : Time} {e : RetransmitEntry} (out : (s.nextOutbound now).2 = some e) :
    ∃ t p, s.pendingByTx.find? t = some p ∧ e = p.toRetransmit := by
  rcases pump_cases now s s.outboundQueue with ⟨_, _, -, -, -, done⟩ | ⟨_, t, _, p, -, -, found, -, done⟩ <;>
    rw [nextOutbound, done] at out
  · cases out
  · exact ⟨t, p, found, (Option.some.inj out).symm⟩

/-! ### The next deadline -/

/-- A loop that keeps the smallest value of a kind of entries finds their minimum. -/
theorem foldl_eq_min? {α β : Type} [Min β] {f : Option β → α → Option β} {kind : α → Bool} {value : α → β}
    (skips : ∀ found a, kind a = false → f found a = found) (starts : ∀ a, kind a = true → f none a = some (value a))
    (lowers : ∀ t a, kind a = true → f (some t) a = some (min t (value a))) (l : List α) (found : Option β) :
    l.foldl f found = (found.toList ++ (l.filter kind).map value).min? := by
  induction l generalizing found with
  | nil => cases found <;> rfl
  | cons a l ih =>
    rw [List.foldl_cons, ih]
    cases taken : kind a with
    | false => rw [skips found a taken, List.filter_cons_of_neg (by simp [taken])]
    | true =>
      rw [List.filter_cons_of_pos taken, List.map_cons]
      cases found with
      | none =>
        rw [starts a taken]
        rfl
      | some t =>
        rw [lowers t a taken]
        rfl

theorem nextDeadline_eq (s : ReliableSession) :
    s.nextDeadline = ((s.pendingByTx.entries.filter (·.2.inflight)).map (·.2.deadline)).min? := by
  apply foldl_eq_min?
  · intro found e idle
    rw [if_pos (by simp [idle])]
  · intro e flying
    rw [if_neg (by simp [flying])]
  · intro t e flying
    rw [if_neg (by simp [flying])]
    show (if e.2.deadline < t then some e.2.deadline else some t) = _
    by_cases earlier : e.2.deadline < t
    · rw [if_pos earlier, Int.min_eq_right (Int.le_of_lt earlier)]
    · rw [if_neg earlier, Int.min_eq_left (Int.not_lt.mp earlier)]

theorem nextDeadline_eq_none {s : ReliableSession} :
    s.nextDeadline = none ↔ ∀ t p, s.pendingByTx.find? t = some p → p.inflight = false := by
  rw [nextDeadline_eq, List.min?_eq_none_iff, List.map_eq_nil_iff, List.filter_eq_nil_iff]
  constructor
  · intro idle t p found
    exact Bool.eq_false_iff.mpr (idle (t, p) (DenseMap.find?_eq_some.mp found))
  · rintro idle ⟨t, p⟩ member
    rw [idle t p (DenseMap.find?_eq_some.mpr member)]
    exact Bool.false_ne_true

/-- The next deadline is that of a request in flight, and none is earlier. -/
theorem nextDeadline_eq_some {s : ReliableSession} {d : Time} : s.nextDeadline = some d ↔
    (∃ t p, s.pendingByTx.find? t = some p ∧ p.inflight = true ∧ p.deadline = d) ∧
      ∀ t p, s.pendingByTx.find? t = some p → p.inflight = true → d ≤ p.deadline := by
  rw [nextDeadline_eq, List.min?_eq_some_iff]
  simp only [List.mem_map, List.mem_filter, Prod.exists, ← DenseMap.find?_eq_some, and_assoc]
  constructor
  · rintro ⟨attained, least⟩
    exact ⟨attained, fun t p found flying => least _ ⟨t, p, found, flying, rfl⟩⟩
  · rintro ⟨attained, least⟩
    refine ⟨attained, ?_⟩
    rintro _ ⟨t, p, found, flying, rfl⟩
    exact least t p found flying

/-- A request in flight has a deadline. -/
theorem nextDeadline_isSome {s : ReliableSession} (flying : 0 < s.inflightEntries) : s.nextDeadline.isSome := by
  obtain ⟨⟨t, p⟩, member, flag⟩ := List.countP_pos_iff.mp flying
  rw [Option.isSome_iff_ne_none]
  intro none
  have idle := nextDeadline_eq_none.mp none t p (DenseMap.find?_eq_some.mpr member)
  rw [flag] at idle
  cases idle

/-! ### Rules for registrations from callbacks -/

section Callbacks

variable {G : List Event → Prop} {I : ReliableSession → List Event → Prop}

theorem registerAll_keeps (closed : ∀ h ev, G (h ++ ev) → G h)
    (register : ∀ s h now r, I s h → G (h ++ [.registered r]) → I (s.registerPending now r) (h ++ [.registered r]))
    (regs : List (Time × Registration)) {s : ReliableSession} {h : List Event} (start : I s h)
    (good : G (h ++ (registerAll s regs).2)) : I (registerAll s regs).1 (h ++ (registerAll s regs).2) := by
  induction regs generalizing s h with
  | nil => simpa [registerAll] using start
  | cons reg regs ih =>
    obtain ⟨now, r⟩ := reg
    simp only [registerAll] at good ⊢
    rw [List.append_cons] at good ⊢
    exact ih (register s h now r start (closed _ _ good)) good

/-- What every registration and the error events that are due keep, the callbacks of `poll` keep. -/
theorem runCallbacks_keeps_due (closed : ∀ h ev, G (h ++ ev) → G h)
    (register : ∀ s h now r, I s h → G (h ++ [.registered r]) → I (s.registerPending now r) (h ++ [.registered r]))
    (reentry : TransactionId → List (Time × Registration)) (callbacks : List (TransactionId × Bool))
    (error : ∀ s h txId, (txId, true) ∈ callbacks → I s h → I s (h ++ [.error txId .timeout]))
    {s : ReliableSession} {h : List Event} (start : I s h) (good : G (h ++ (runCallbacks reentry s callbacks).2)) :
    I (runCallbacks reentry s callbacks).1 (h ++ (runCallbacks reentry s callbacks).2) := by
  induction callbacks generalizing s h with
  | nil => simpa [runCallbacks] using start
  | cons cb callbacks ih =>
    have later := @ih fun s h txId member => error s h txId (List.mem_cons_of_mem _ member)
    obtain ⟨txId, present⟩ := cb
    cases present with
    | false => exact later start good
    | true =>
      have told := error s h txId List.mem_cons_self start
      simp only [runCallbacks] at good ⊢
      rw [List.append_cons, ← List.append_assoc] at good ⊢
      exact later (registerAll_keeps closed register _ told (closed _ _ good)) good

/-- What every registration and every error event keeps, the callbacks of `poll` keep. -/
theorem runCallbacks_keeps (closed : ∀ h ev, G (h ++ ev) → G h)
    (register : ∀ s h now r, I s h → G (h ++ [.registered r]) → I (s.registerPending now r) (h ++ [.registered r]))
    (error : ∀ s h txId, I s h → I s (h ++ [.error txId .timeout]))
    (reentry : TransactionId → List (Time × Registration)) (callbacks : List (TransactionId × Bool))
    {s : ReliableSession} {h : List Event} (start : I s h) (good : G (h ++ (runCallbacks reentry s callbacks).2)) :
    I (runCallbacks reentry s callbacks).1 (h ++ (runCallbacks reentry s callbacks).2) :=
  runCallbacks_keeps_due closed register reentry callbacks (fun s h txId _ => error s h txId) start good

end Callbacks

theorem mem_registerAll {s : ReliableSession} {regs : List (Time × Registration)} {e : Event}
    (member : e ∈ (registerAll s regs).2) : ∃ r, e = .registered r := by
  induction regs generalizing s with
  | nil => cases member
  | cons reg regs ih =>
    rcases List.mem_cons.mp member with rfl | later
    · exact ⟨_, rfl⟩
    · exact ih later

/-- The callbacks of `poll` log errors and registrations. -/
theorem mem_runCallbacks {reentry : TransactionId → List (Time × Registration)} {s : ReliableSession}
    {callbacks : List (TransactionId × Bool)} {e : Event} (member : e ∈ (runCallbacks reentry s callbacks).2) :
    (∃ r, e = .registered r) ∨ ∃ t, e = .error t .timeout := by
  induction callbacks generalizing s with
  | nil => cases member
  | cons cb callbacks ih =>
    obtain ⟨txId, present⟩ := cb
    cases present with
    | false => exact ih member
    | true =>
      rcases List.mem_cons.mp member with rfl | later
      · exact .inr ⟨_, rfl⟩
      rcases List.mem_append.mp later with registered | later
      · exact .inl (mem_registerAll registered)
      · exact ih later

/-- **What is sent is pending.** An entry that an operation hands out or retransmits is that
of a pending request. -/
theorem step_sends {s : ReliableSession} {o : Op} {e : RetransmitEntry}
    (sent : .handedOut e ∈ (session.step s o).2 ∨ .retransmitted e ∈ (session.step s o).2) :
    ∃ t p, s.pendingByTx.find? t = some p ∧ e = p.toRetransmit := by
  cases o with
  | registerPending now r | onAck now t | cacheResponse cmd t responseCmd bytes | resetDeviceState =>
    rcases sent with h | h <;> simp [session, step] at h
  | onRequest cmd t => rcases sent with h | h <;> simp [session, step] at h
  | onResponse cmd t bytes => rcases sent with h | h <;> obtain ⟨_, -, -, same⟩ := mem_onResponse h <;> cases same
  | poll now clock reentry =>
    have split : (.handedOut e ∈ (runCallbacks reentry (s.pollLoop now clock).1 (s.pollLoop now clock).2.callbacks).2 ∨
        .retransmitted e ∈ (runCallbacks reentry (s.pollLoop now clock).1 (s.pollLoop now clock).2.callbacks).2) ∨
        e ∈ (s.pollLoop now clock).2.retries := by
      simpa [session, step, poll, or_assoc] using sent
    rcases split with (h | h) | retry
    · rcases mem_runCallbacks h with ⟨_, same⟩ | ⟨_, same⟩ <;> cases same
    · rcases mem_runCallbacks h with ⟨_, same⟩ | ⟨_, same⟩ <;> cases same
    · obtain ⟨t, p, found, -, same⟩ := mem_retries retry
      exact ⟨t, p, found, same⟩
  | nextOutbound now =>
    have out : (s.nextOutbound now).2 = some e := by simpa [session, step] using sent
    exact nextOutbound_mem out

/-- A response callback is invoked by `on_response` alone, for a pending request. -/
theorem step_responds {s : ReliableSession} {o : Op} {t : TransactionId} {cmd : UInt16} {bytes : List UInt8}
    (called : .response t cmd bytes ∈ (session.step s o).2) :
    ∃ txId p, o = .onResponse cmd txId bytes ∧ s.pendingByTx.find? txId = some p ∧ p.responseCmd = cmd ∧
      p.txId = t := by
  cases o with
  | registerPending now r | onAck now t | cacheResponse cmd t responseCmd bytes | resetDeviceState =>
    simp [session, step] at called
  | onRequest cmd t => simp [session, step] at called
  | onResponse cmd' txId bytes' =>
    obtain ⟨p, found, fits, same⟩ := mem_onResponse called
    obtain ⟨id, rfl, rfl⟩ := Event.response.inj same
    exact ⟨txId, p, rfl, found, fits, id.symm⟩
  | poll now clock reentry =>
    have callback : .response t cmd bytes ∈
        (runCallbacks reentry (s.pollLoop now clock).1 (s.pollLoop now clock).2.callbacks).2 := by
      simpa [session, step, poll] using called
    rcases mem_runCallbacks callback with ⟨_, same⟩ | ⟨_, same⟩ <;> cases same
  | nextOutbound now =>
    obtain ⟨_, -, same⟩ := Option.map_eq_some_iff.mp (Option.mem_toList.mp called)
    cases same

/-! ### Where pending entries come from -/

end ReliableSession

namespace ReliableSession

/-- An entry after some operations: one from before, or one registered meanwhile. -/
def Comes (s : ReliableSession) (ev : List Event) (t : TransactionId) (p : PendingEntry) : Prop :=
  (∃ q, s.pendingByTx.find? t = some q ∧ p.request = q.request) ∨
    ∃ r, .registered r ∈ ev ∧ r.txId = t ∧ p.request = r.stored

theorem Comes.register {s s' : ReliableSession} {ev : List Event}
    (comes : ∀ t p, s'.pendingByTx.find? t = some p → s.Comes ev t p)
    (now : Time) (r : Registration) :
    ∀ t p, (s'.registerPending now r).pendingByTx.find? t = some p → s.Comes (ev ++ [.registered r]) t p := by
  intro t p found
  simp only [registerPending, DenseMap.find?_insertOrAssign] at found
  split at found
  · rename_i same
    cases found
    exact .inr ⟨r, by simp, same.symm, rfl⟩
  · rcases comes t p found with old | ⟨r', member, rest⟩
    · exact .inl old
    · exact .inr ⟨r', List.mem_append_left _ member, rest⟩

theorem Carries.comes {s s' : ReliableSession} (carries : s.Carries s') (ev : List Event) {t : TransactionId}
    {p : PendingEntry} (found : s'.pendingByTx.find? t = some p) : s.Comes ev t p := by
  obtain ⟨q, hq, same, -⟩ := carries t p found
  exact .inl ⟨q, hq, same⟩

/-- **Entries are registered.** After an operation every pending entry was pending before,
for the same request, or has been registered by the operation. -/
theorem step_pending (s : ReliableSession) (o : Op) (t : TransactionId) (p : PendingEntry)
    (found : (session.step s o).1.pendingByTx.find? t = some p) : s.Comes (session.step s o).2 t p := by
  cases o with
  | registerPending now r =>
    have self : ∀ u q, s.pendingByTx.find? u = some q → s.Comes [] u q := fun u q hq => .inl ⟨q, hq, rfl⟩
    exact Comes.register self now r t p found
  | onAck now u => exact (s.onAck_carries now u).comes _ found
  | onResponse cmd u bytes => exact (s.onResponse_carries cmd u bytes).comes _ found
  | onRequest cmd u =>
    change (s.onRequest cmd u).1.pendingByTx.find? t = some p at found
    rw [s.onRequest_eq cmd u] at found
    exact .inl ⟨p, found, rfl⟩
  | cacheResponse cmd u responseCmd bytes => exact .inl ⟨p, found, rfl⟩
  | poll now clock reentry =>
    have loop : ∀ u q, (s.pollLoop now clock).1.pendingByTx.find? u = some q → s.Comes [] u q :=
      fun u q hq => (s.pollLoop_carries now clock).comes [] hq
    have comes := runCallbacks_keeps (G := fun _ => True)
      (I := fun s' ev => ∀ u q, s'.pendingByTx.find? u = some q → s.Comes ev u q) (h := [])
      (fun _ _ _ => trivial) (fun _ _ now r comes _ => Comes.register comes now r)
      (fun s' ev id comes u q hq => (comes u q hq).imp_right fun ⟨r, member, rest⟩ =>
        ⟨r, List.mem_append_left _ member, rest⟩) reentry (s.pollLoop now clock).2.callbacks loop trivial t p found
    exact comes.imp_right fun ⟨r, member, rest⟩ => ⟨r, List.mem_append_left _ member, rest⟩
  | nextOutbound now =>
    change (s.nextOutbound now).1.pendingByTx.find? t = some p at found
    rcases pump_cases now s s.outboundQueue with ⟨_, _, -, -, -, done⟩ | ⟨_, u, _, q, -, -, hq, -, done⟩ <;>
      rw [nextOutbound, done] at found
    · exact .inl ⟨p, found, rfl⟩
    · rw [DenseMap.find?_insertOrAssign] at found
      split at found
      · rename_i here
        cases found
        exact .inl ⟨q, here ▸ hq, rfl⟩
      · exact .inl ⟨p, found, rfl⟩
  | resetDeviceState => exact .inl ⟨p, found, rfl⟩

/-- Every pending entry is that of the last registration of its transaction. -/
def Recorded (s : ReliableSession) (log : List Event) : Prop :=
  ∀ t p, s.pendingByTx.find? t = some p → ∃ r, lastRegistered t log = some r ∧ p.request = r.stored

namespace Recorded

variable {s : ReliableSession} {log : List Event}

theorem extend (recorded : Recorded s log) {ev : List Event} (quiet : ∀ r, .registered r ∉ ev) :
    Recorded s (log ++ ev) := by
  intro t p found
  rw [lastRegistered_quiet t quiet]
  exact recorded t p found

theorem register (recorded : Recorded s log) (now : Time) (r : Registration) :
    Recorded (s.registerPending now r) (log ++ [.registered r]) := by
  intro t p found
  rw [lastRegistered_registered]
  simp only [registerPending, DenseMap.find?_insertOrAssign] at found
  split at found
  · rename_i same
    cases found
    exact ⟨r, if_pos same.symm, rfl⟩
  · rename_i other
    rw [if_neg (Ne.symm other)]
    exact recorded t p found

/-- An operation that registers nothing. -/
theorem quiet_step (recorded : Recorded s log) {o : Op} (quiet : ∀ r, .registered r ∉ (session.step s o).2) :
    Recorded (session.step s o).1 (log ++ (session.step s o).2) := by
  intro t p found
  rw [lastRegistered_quiet t quiet]
  rcases step_pending s o t p found with ⟨q, hq, same⟩ | ⟨r, member, -⟩
  · obtain ⟨r, last, stored⟩ := recorded t q hq
    exact ⟨r, last, same.trans stored⟩
  · exact absurd member (quiet r)

theorem step (recorded : Recorded s log) (o : Op) : Recorded (session.step s o).1 (log ++ (session.step s o).2) := by
  cases o with
  | registerPending now r => exact recorded.register now r
  | poll now clock reentry =>
    have loop : Recorded (s.pollLoop now clock).1 log := by
      intro t p found
      obtain ⟨q, hq, same, -⟩ := s.pollLoop_carries now clock t p found
      obtain ⟨r, last, stored⟩ := recorded t q hq
      exact ⟨r, last, same.trans stored⟩
    have called := runCallbacks_keeps (G := fun _ => True) (I := Recorded) (fun _ _ _ => trivial)
      (fun _ _ now r recorded _ => recorded.register now r) (fun _ _ _ recorded => recorded.extend (by simp)) reentry
      (s.pollLoop now clock).2.callbacks loop trivial
    show Recorded _ (log ++ (_ ++ List.map Event.retransmitted _))
    rw [← List.append_assoc]
    exact called.extend (by simp)
  | onAck now t | cacheResponse cmd t responseCmd bytes | resetDeviceState =>
    exact recorded.quiet_step fun r member => by cases member
  | onRequest cmd t => exact recorded.quiet_step fun r member => by cases List.mem_singleton.mp member
  | onResponse cmd t bytes =>
    apply recorded.quiet_step
    intro r member
    obtain ⟨_, -, -, same⟩ := mem_onResponse member
    cases same
  | nextOutbound now =>
    apply recorded.quiet_step
    intro r member
    obtain ⟨_, -, same⟩ := Option.map_eq_some_iff.mp (Option.mem_toList.mp member)
    cases same

end Recorded

/-- Every pending entry of a run is that of the last registration of its transaction. -/
theorem recorded_run (config : Config) (ops : List Op) :
    Recorded (session.exec (.init config) ops) (session.trace (.init config) ops) := by
  apply session.run_invariant_always (I := Recorded)
  · intro t p found
    cases found
  · intro s log o recorded
    exact recorded.step o

/-- Every pending entry of a run is that of a registration. -/
theorem pending_registered (config : Config) (ops : List Op) (t : TransactionId) (p : PendingEntry)
    (found : (session.exec (.init config) ops).pendingByTx.find? t = some p) :
    ∃ r, .registered r ∈ session.trace (.init config) ops ∧ r.txId = t ∧ p.request = r.stored := by
  obtain ⟨r, last, stored⟩ := recorded_run config ops t p found
  obtain ⟨member, id⟩ := mem_of_lastRegistered last
  exact ⟨r, member, id, stored⟩

/-! ### The cache of responses -/

/-- What is dropped from the cache leaves the rest as it is. -/
theorem find?_shrink {capacity : Nat} {cache : DenseMap DedupKey CompletedResponse} {order : List DedupKey}
    {k : DedupKey}
    {c : CompletedResponse} (found : (shrink capacity cache order).1.find? k = some c) : cache.find? k = some c := by
  induction order generalizing cache with
  | nil => exact found
  | cons oldest rest ih =>
    rw [shrink] at found
    split at found
    · have kept := ih found
      rw [DenseMap.find?_erase] at kept
      split at kept
      · cases kept
      · exact kept
    · exact found

/-- A cached response was cached before, or is the one cached now. -/
theorem cacheResponse_cached {s : ReliableSession} {cmd responseCmd : UInt16} {t : TransactionId} {bytes : List UInt8}
    {k : DedupKey} {c : CompletedResponse}
    (found : (s.cacheResponse cmd t responseCmd bytes).completedCache.find? k = some c) :
    (k = composeDedupKey cmd t ∧ c = ⟨responseCmd, bytes.take MAX_PACKET_SIZE⟩) ∨
      k ≠ composeDedupKey cmd t ∧ s.completedCache.find? k = some c := by
  have stored := find?_shrink found
  rw [DenseMap.find?_insertOrAssign] at stored
  split at stored
  · rename_i here
    exact .inl ⟨here, (Option.some.inj stored).symm⟩
  · rename_i other
    exact .inr ⟨other, stored⟩

/-- A duplicate is answered from the cache. -/
theorem onRequest_cached {s : ReliableSession} {cmd : UInt16} {t : TransactionId} {c : CompletedResponse}
    (cached : (s.onRequest cmd t).2.cached = some c) : s.completedCache.find? (composeDedupKey cmd t) = some c := by
  by_cases seen : composeDedupKey cmd t ∈ s.seenRequests.ids
  · simp only [onRequest, IdRingBuffer.testAndInsert_seen seen] at cached
    exact cached
  · have new := IdRingBuffer.testAndInsert_new seen
    generalize (s.seenRequests.testAndInsert (composeDedupKey cmd t)).1 = ring at new
    simp only [onRequest, new] at cached
    cases cached

/-- The cache, its order list and the ring of seen requests. -/
def deviceSide (s : ReliableSession) : DenseMap DedupKey CompletedResponse × List DedupKey × DedupRingBuffer :=
  (s.completedCache, s.completedOrder, s.seenRequests)

/-- The operations of the host side leave the device side alone. -/
theorem step_deviceSide {s : ReliableSession} {o : Op} (host : o.hostSide = true) :
    (session.step s o).1.deviceSide = s.deviceSide := by
  cases o with
  | registerPending now r => rfl
  | onAck now t =>
    show (s.onAck now t).deviceSide = _
    rcases s.onAck_eq now t with same | ⟨p, -, -, done⟩
    · rw [same]
    · rw [done]
      rfl
  | onResponse cmd t bytes =>
    show (s.onResponse cmd t bytes).1.deviceSide = _
    rcases s.onResponse_cases cmd t bytes with ⟨ring, done, -⟩ | ⟨ring, p, -, -, done⟩ <;> rw [done] <;> rfl
  | poll now clock reentry =>
    exact runCallbacks_keeps (G := fun _ => True) (I := fun t _ => t.deviceSide = s.deviceSide) (h := [])
      (fun _ _ _ => trivial) (fun _ _ _ _ same _ => same) (fun _ _ _ same => same) reentry _ rfl trivial
  | nextOutbound now =>
    show (s.nextOutbound now).1.deviceSide = _
    rcases pump_cases now s s.outboundQueue with ⟨_, _, -, -, -, done⟩ | ⟨_, _, _, _, -, -, -, -, done⟩ <;>
      rw [nextOutbound, done] <;> rfl
  | onRequest cmd t | cacheResponse cmd t responseCmd bytes | resetDeviceState => cases host

theorem step_device {s : ReliableSession} {o : Op} (host : o.hostSide = true) :
    (session.step s o).1.completedCache = s.completedCache ∧ (session.step s o).1.seenRequests = s.seenRequests :=
  ⟨congrArg Prod.fst (step_deviceSide host), congrArg (fun d => d.2.2) (step_deviceSide host)⟩

theorem step_completedOrder {s : ReliableSession} {o : Op} (host : o.hostSide = true) :
    (session.step s o).1.completedOrder = s.completedOrder :=
  congrArg (fun d => d.2.1) (step_deviceSide host)

/-! ### What never changes -/

/-- No operation changes the configuration or takes a number. -/
theorem step_fixed (s : ReliableSession) (o : Op) :
    (session.step s o).1.config = s.config ∧ (session.step s o).1.nextTxId = s.nextTxId := by
  cases o with
  | onAck now t =>
    show (s.onAck now t).config = _ ∧ (s.onAck now t).nextTxId = _
    rcases s.onAck_eq now t with same | ⟨p, -, -, done⟩
    · rw [same]
      exact ⟨rfl, rfl⟩
    · rw [done]
      exact ⟨rfl, rfl⟩
  | onResponse cmd t bytes =>
    show (s.onResponse cmd t bytes).1.config = _ ∧ (s.onResponse cmd t bytes).1.nextTxId = _
    rcases s.onResponse_cases cmd t bytes with ⟨ring, done, -⟩ | ⟨ring, p, -, -, done⟩ <;> rw [done] <;>
      exact ⟨rfl, rfl⟩
  | onRequest cmd t =>
    show (s.onRequest cmd t).1.config = _ ∧ (s.onRequest cmd t).1.nextTxId = _
    rw [s.onRequest_eq cmd t]
    exact ⟨rfl, rfl⟩
  | poll now clock reentry =>
    exact runCallbacks_keeps (G := fun _ => True) (I := fun t _ => t.config = s.config ∧ t.nextTxId = s.nextTxId)
      (h := []) (fun _ _ _ => trivial) (fun _ _ _ _ same _ => same) (fun _ _ _ same => same) reentry _ ⟨rfl, rfl⟩
      trivial
  | nextOutbound now =>
    show (s.nextOutbound now).1.config = _ ∧ (s.nextOutbound now).1.nextTxId = _
    rcases pump_cases now s s.outboundQueue with ⟨_, _, -, -, -, done⟩ | ⟨_, _, _, _, -, -, -, -, done⟩ <;>
      rw [nextOutbound, done] <;> exact ⟨rfl, rfl⟩
  | registerPending now r | cacheResponse cmd t responseCmd bytes | resetDeviceState => exact ⟨rfl, rfl⟩

theorem step_config (s : ReliableSession) (o : Op) : (session.step s o).1.config = s.config := (step_fixed s o).1

theorem exec_config (s : ReliableSession) (ops : List Op) : (session.exec s ops).config = s.config := by
  induction ops generalizing s with
  | nil => rfl
  | cons o ops ih => exact (ih _).trans (step_config s o)

end ReliableSession

end FloridUsb.Session
