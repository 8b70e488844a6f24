import FloridUsb.Session.Window

/-!
# One request at a time

A session with a window of one, the documented mode. What is in flight is the request handed out
last (`current`), and no request is handed out twice. So a retry is always of the request handed
out last.
-/

namespace FloridUsb.Session
set_option autoImplicit false

open Lib ReliableSession

def RetransmitEntry.key (e : RetransmitEntry) : RequestKey := (e.requestCmd, e.txId)

def Event.hands? : Event → Option RequestKey
  | .handedOut e => some e.key
  | _ => none

/-- The requests handed out, in order. -/
def handedKeys (log : List Event) : List RequestKey := log.filterMap Event.hands?

@[simp] theorem handedKeys_append (a b : List Event) : handedKeys (a ++ b) = handedKeys a ++ handedKeys b :=
  List.filterMap_append

theorem handedKeys_quiet {log : List Event} (quiet : ∀ e, .handedOut e ∉ log) : handedKeys log = [] := by
  rw [handedKeys, List.filterMap_eq_nil_iff]
  intro e member
  cases e with
  | handedOut e => exact absurd member (quiet e)
  | registered _ | retransmitted _ | response _ _ _ | error _ _ | requested _ _ _ => rfl

theorem mem_handedKeys {log : List Event} {k : RequestKey} (member : k ∈ handedKeys log) :
    ∃ e, .handedOut e ∈ log ∧ e.key = k := by
  obtain ⟨e, logged, same⟩ := List.mem_filterMap.mp member
  cases e with
  | handedOut e => exact ⟨e, logged, Option.some.inj same⟩
  | registered _ | retransmitted _ | response _ _ _ | error _ _ | requested _ _ _ => cases same

/-- The invariant of a session with a window of one. -/
structure OneAtATime (s : ReliableSession) (log : List Event) : Prop where
  window : Window s log
  size : s.config.windowSize = 1
  nodup : (handedKeys log).Nodup
  current : ∀ t p, s.pendingByTx.find? t = some p → p.inflight = true →
    (handedKeys log).getLast? = some p.toRetransmit.key

namespace OneAtATime

variable {s s' : ReliableSession} {h : List Event}

theorem init {config : Config} (one : config.windowSize ≤ 1) : OneAtATime (.init config) [] where
  window := .init config
  size := by
    show (if config.windowSize = 0 then 1 else config.windowSize) = 1
    split <;> omega
  nodup := List.nodup_nil
  current t p found := by cases found

/-- Events that hand nothing out change nothing. -/
theorem extend (one : OneAtATime s h) {ev : List Event} (quiet : ∀ e, .handedOut e ∉ ev) : OneAtATime s (h ++ ev) := by
  have same : handedKeys (h ++ ev) = handedKeys h := by
    rw [handedKeys_append, handedKeys_quiet quiet, List.append_nil]
  constructor
  · exact one.window.extend quiet
  · exact one.size
  · rw [same]
    exact one.nodup
  · rw [same]
    exact one.current

/-- Entries may leave the map, and may change but for their request and their flag. -/
theorem narrow (one : OneAtATime s h) (carries : s.Carries s') (window : Window s' h) (config : s'.config = s.config) :
    OneAtATime s' h := by
  constructor
  · exact window
  · rw [config]
    exact one.size
  · exact one.nodup
  · intro t p found flag
    obtain ⟨q, before, same, flags⟩ := carries t p found
    rw [PendingEntry.toRetransmit_eq same]
    exact one.current t q before (flags ▸ flag)

/-- Nothing that the window depends on has changed. -/
theorem of_eq (one : OneAtATime s h) (config : s'.config = s.config) (queue : s'.outboundQueue = s.outboundQueue)
    (pending : s'.pendingByTx = s.pendingByTx) (count : s'.inflightCount = s.inflightCount) : OneAtATime s' h :=
  one.narrow (.of_eq pending) (one.window.of_eq config queue pending count) config

theorem register (one : OneAtATime s h) (now : Time) (r : Registration) (once : RegisteredOnce (h ++ [.registered r])) :
    OneAtATime (s.registerPending now r) (h ++ [.registered r]) := by
  have same : handedKeys (h ++ [.registered r]) = handedKeys h := by
    rw [handedKeys_append]
    exact List.append_nil _
  constructor
  · exact one.window.register now r once
  · exact one.size
  · rw [same]
    exact one.nodup
  · intro t p found flag
    simp only [registerPending, DenseMap.find?_insertOrAssign] at found
    split at found
    · cases found
      cases flag
    · rw [same]
      exact one.current t p found flag

theorem ack (one : OneAtATime s h) (now : Time) (t : TransactionId) : OneAtATime (s.onAck now t) h := by
  apply one.narrow (s.onAck_carries now t) (one.window.ack now t)
  exact s.step_config (.onAck now t)

theorem response (one : OneAtATime s h) (cmd : UInt16) (t : TransactionId) (bytes : List UInt8) :
    OneAtATime (s.onResponse cmd t bytes).1 h := by
  apply one.narrow (s.onResponse_carries cmd t bytes) (one.window.response cmd t bytes)
  exact s.step_config (.onResponse cmd t bytes)

theorem poll_loop (one : OneAtATime s h) (now : Time) (clock : TransactionId → Time) :
    OneAtATime (s.pollLoop now clock).1 h := by
  apply one.narrow (s.pollLoop_carries now clock) (one.window.poll_loop now clock)
  rfl

/-- When there is room, nothing is in flight; the request handed out is a new one. -/
theorem outbound (one : OneAtATime s h) (now : Time) :
    OneAtATime (s.nextOutbound now).1 (h ++ ((s.nextOutbound now).2.map Event.handedOut).toList) := by
  have after := one.window.outbound now
  have config := s.step_config (.nextOutbound now)
  change (s.nextOutbound now).1.config = s.config at config
  rcases pump_cases now s s.outboundQueue with ⟨_, _, -, -, -, done⟩ | ⟨stale, t, rest, p, queue, -, found, room, done⟩
  · rw [nextOutbound, done] at after config ⊢
    simp only [Option.map_none, Option.toList_none, List.append_nil] at after ⊢
    apply one.narrow _ after config
    exact .of_eq rfl
  · have idle : p.inflight = false := (one.window.waiting t p found).mp (by rw [queue]; simp)
    have id : p.txId = t := one.window.keyed t p found
    have none : ∀ u q, s.pendingByTx.find? u = some q → q.inflight = false := by
      intro u q there
      cases flag : q.inflight with
      | false => rfl
      | true =>
        have flying := one.window.flying_of_inflight there flag
        rw [one.size] at room
        omega
    have fresh : p.toRetransmit.key ∉ handedKeys h := by
      intro member
      obtain ⟨e, handed, same⟩ := mem_handedKeys member
      have tx : e.txId = t := (congrArg Prod.snd same).trans id
      have flag := (one.window.handed e handed).2 p (tx ▸ found)
      rw [idle] at flag
      cases flag
    rw [nextOutbound, done] at after config ⊢
    have log : handedKeys (h ++ ((some p.toRetransmit).map Event.handedOut).toList) =
        handedKeys h ++ [p.toRetransmit.key] := handedKeys_append h _
    constructor
    · exact after
    · rw [config]
      exact one.size
    · rw [log, List.nodup_append]
      refine ⟨one.nodup, List.nodup_singleton _, fun a old b new same => ?_⟩
      rw [List.mem_singleton.mp new] at same
      exact fresh (same ▸ old)
    · intro u q there flag
      rw [log, List.getLast?_concat]
      rw [DenseMap.find?_insertOrAssign] at there
      split at there
      · cases there
        rfl
      · rw [none u q there] at flag
        cases flag

end OneAtATime

end FloridUsb.Session
