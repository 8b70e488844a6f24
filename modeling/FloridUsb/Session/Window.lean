import FloridUsb.Session.Run

/-!
# The window of a session

The counter, the flags, the map and the queue of a host session agree at all times
(`Window`): the counter counts the flags, and the queue holds every waiting request once,
besides transactions that are no longer pending. So a session with pending requests is
never stuck without a request in flight, and with a window of one a request waits until the
one handed out before it is retired.
-/

namespace FloridUsb.Session
set_option autoImplicit false

open Lib ReliableSession

/-- The invariant of the window, in a run that has logged `log`. -/
structure Window (s : ReliableSession) (log : List Event) : Prop where
  keyed : ∀ t p, s.pendingByTx.find? t = some p → p.txId = t
  counted : s.inflightCount = s.inflightEntries
  bounded : s.inflightCount ≤ s.config.windowSize
  queue_nodup : s.outboundQueue.Nodup
  waiting : ∀ t p, s.pendingByTx.find? t = some p → (t ∈ s.outboundQueue ↔ p.inflight = false)
  pending_known : ∀ t p, s.pendingByTx.find? t = some p → t ∈ registeredTxs log
  queue_known : ∀ t ∈ s.outboundQueue, t ∈ registeredTxs log
  handed : ∀ e, .handedOut e ∈ log →
    e.txId ∈ registeredTxs log ∧ ∀ p, s.pendingByTx.find? e.txId = some p → p.inflight = true

namespace Window

variable {s : ReliableSession} {h : List Event}

theorem init (config : Config) : Window (.init config) [] := by
  constructor
  · intro t p found
    cases found
  · rfl
  · exact Nat.zero_le _
  · exact List.nodup_nil
  · intro t p found
    cases found
  · intro t p found
    cases found
  · intro t member
    cases member
  · intro e member
    cases member

/-- Events that hand nothing out change nothing. -/
theorem extend (w : Window s h) {ev : List Event} (quiet : ∀ e, .handedOut e ∉ ev) : Window s (h ++ ev) := by
  have known : ∀ t, t ∈ registeredTxs h → t ∈ registeredTxs (h ++ ev) := by
    intro t member
    rw [registeredTxs_append]
    exact List.mem_append_left _ member
  constructor
  · exact w.keyed
  · exact w.counted
  · exact w.bounded
  · exact w.queue_nodup
  · exact w.waiting
  · exact fun t p found => known t (w.pending_known t p found)
  · exact fun t member => known t (w.queue_known t member)
  · intro e member
    rcases List.mem_append.mp member with old | new
    · exact ⟨known _ (w.handed e old).1, (w.handed e old).2⟩
    · exact absurd new (quiet e)

theorem register (w : Window s h) (now : Time) (r : Registration) (once : RegisteredOnce (h ++ [.registered r])) :
    Window (s.registerPending now r) (h ++ [.registered r]) := by
  have fresh := once.fresh
  have absent : s.pendingByTx.find? r.txId = none := by
    cases found : s.pendingByTx.find? r.txId with
    | none => rfl
    | some p => exact absurd (w.pending_known _ p found) fresh
  have unqueued : r.txId ∉ s.outboundQueue := fun member => fresh (w.queue_known _ member)
  have log : registeredTxs (h ++ [.registered r]) = registeredTxs h ++ [r.txId] := by
    rw [registeredTxs_append]
    rfl
  constructor
  · exact registerPending_keyed w.keyed now r
  · rw [inflightEntries, registerPending, DenseMap.countP_insertOrAssign_new _ _ absent]
    exact w.counted
  · exact w.bounded
  · simp only [registerPending, List.nodup_append]
    refine ⟨w.queue_nodup, List.nodup_singleton _, fun a ha b hb same => ?_⟩
    rw [List.mem_singleton.mp hb] at same
    exact unqueued (same ▸ ha)
  · intro t p found
    simp only [registerPending, DenseMap.find?_insertOrAssign] at found ⊢
    rw [List.mem_append, List.mem_singleton]
    split at found
    · rename_i same
      cases found
      exact ⟨fun _ => rfl, fun _ => .inr same⟩
    · rename_i other
      rw [← w.waiting t p found]
      exact ⟨fun member => member.resolve_right other, .inl⟩
  · intro t p found
    rw [log, List.mem_append, List.mem_singleton]
    simp only [registerPending, DenseMap.find?_insertOrAssign] at found
    split at found
    · rename_i same
      exact .inr same
    · exact .inl (w.pending_known t p found)
  · intro t member
    rw [log, List.mem_append]
    rcases List.mem_append.mp member with old | new
    · exact .inl (w.queue_known t old)
    · exact .inr new
  · intro e member
    rw [log, List.mem_append]
    have old : .handedOut e ∈ h := by simpa using member
    have earlier := w.handed e old
    refine ⟨.inl earlier.1, fun p found => ?_⟩
    have other : e.txId ≠ r.txId := fun same => fresh (same ▸ earlier.1)
    rw [registerPending, DenseMap.find?_insertOrAssign_ne _ _ other] at found
    exact earlier.2 p found

/-- Entries may leave the map if the count follows. -/
theorem narrow (w : Window s h) {s' : ReliableSession} (frees : s.Frees s') : Window s' h := by
  have balance := frees.balance
  have before := w.counted
  constructor
  · exact frees.carries.keyed w.keyed
  · omega
  · have fewer := frees.fewer
    have bounded := w.bounded
    rw [frees.config]
    omega
  · rw [frees.queue]
    exact w.queue_nodup
  · intro t p found
    obtain ⟨q, hq, -, flag⟩ := frees.carries t p found
    rw [flag, frees.queue]
    exact w.waiting t q hq
  · intro t p found
    obtain ⟨q, hq, -⟩ := frees.carries t p found
    exact w.pending_known t q hq
  · rw [frees.queue]
    exact w.queue_known
  · intro e member
    refine ⟨(w.handed e member).1, fun p found => ?_⟩
    obtain ⟨q, hq, -, flag⟩ := frees.carries _ p found
    rw [flag]
    exact (w.handed e member).2 q hq

/-- Nothing that the window depends on has changed. -/
theorem of_eq (w : Window s h) {s' : ReliableSession} (config : s'.config = s.config)
    (queue : s'.outboundQueue = s.outboundQueue) (pending : s'.pendingByTx = s.pendingByTx)
    (count : s'.inflightCount = s.inflightCount) : Window s' h :=
  w.narrow (.of_eq config queue pending count)

theorem ack (w : Window s h) (now : Time) (t : TransactionId) : Window (s.onAck now t) h :=
  w.narrow (s.onAck_frees now t)

theorem response (w : Window s h) (cmd : UInt16) (t : TransactionId) (bytes : List UInt8) :
    Window (s.onResponse cmd t bytes).1 h :=
  w.narrow (s.onResponse_frees cmd t bytes (Nat.le_of_eq w.counted.symm))

theorem poll_loop (w : Window s h) (now : Time) (clock : TransactionId → Time) :
    Window (s.pollLoop now clock).1 h :=
  w.narrow (s.pollLoop_frees now clock (Nat.le_of_eq w.counted.symm))

/-- Transactions that are no longer pending leave the queue. -/
theorem drop_stale (w : Window s h) {stale rest : List TransactionId} (queue : s.outboundQueue = stale ++ rest)
    (gone : ∀ t ∈ stale, s.pendingByTx.find? t = none) : Window { s with outboundQueue := rest } h := by
  have nodup := w.queue_nodup
  rw [queue] at nodup
  constructor
  · exact w.keyed
  · exact w.counted
  · exact w.bounded
  · exact nodup.of_append_right
  · intro u x hx
    rw [← w.waiting u x hx, queue, List.mem_append]
    refine ⟨.inr, fun member => member.resolve_left fun out => ?_⟩
    have absent := gone u out
    rw [hx] at absent
    cases absent
  · exact w.pending_known
  · intro u member
    exact w.queue_known u (queue ▸ List.mem_append_right _ member)
  · exact w.handed

/-- The request in front of the queue takes a place in the window. -/
theorem hand_out (w : Window s h) (now : Time) {t : TransactionId} {rest : List TransactionId} {p : PendingEntry}
    (queue : s.outboundQueue = t :: rest) (found : s.pendingByTx.find? t = some p)
    (room : s.inflightCount < s.config.windowSize) :
    Window { s with
        outboundQueue := rest
        pendingByTx := s.pendingByTx.insertOrAssign t { p with inflight := true, deadline := now + p.timeout }
        inflightCount := s.inflightCount + 1 } (h ++ [.handedOut p.toRetransmit]) := by
  have nodup := w.queue_nodup
  have known := w.pending_known t p found
  have id := w.keyed t p found
  have idle : p.inflight = false := (w.waiting t p found).mp (queue ▸ List.mem_cons_self)
  rw [queue] at nodup
  have find : ∀ u x, (s.pendingByTx.insertOrAssign t
      { p with inflight := true, deadline := now + p.timeout }).find? u =
      some x → (u = t ∧ x.txId = t ∧ x.inflight = true) ∨ (u ≠ t ∧ s.pendingByTx.find? u = some x) := by
    intro u x hx
    rw [DenseMap.find?_insertOrAssign] at hx
    split at hx
    · rename_i here
      cases hx
      exact .inl ⟨here, id, rfl⟩
    · rename_i other
      exact .inr ⟨other, hx⟩
  have log : registeredTxs (h ++ [.handedOut p.toRetransmit]) = registeredTxs h := by
    rw [registeredTxs_append]
    exact List.append_nil _
  constructor
  · intro u x hx
    rcases find u x hx with ⟨rfl, same, -⟩ | ⟨-, old⟩
    · exact same
    · exact w.keyed u x old
  · have count := DenseMap.countP_insertOrAssign_old (fun e : TransactionId × PendingEntry => e.2.inflight)
      { p with inflight := true, deadline := now + p.timeout } found
    have before := w.counted
    simp only [inflightEntries, idle] at count before ⊢
    simp at count
    omega
  · exact room
  · exact (List.nodup_cons.mp nodup).2
  · intro u x hx
    rcases find u x hx with ⟨rfl, -, flag⟩ | ⟨other, old⟩
    · rw [flag]
      exact ⟨fun member => absurd member (List.nodup_cons.mp nodup).1, fun h => by cases h⟩
    · rw [← w.waiting u x old, queue, List.mem_cons]
      exact ⟨.inr, fun member => member.resolve_left other⟩
  · intro u x hx
    rw [log]
    rcases find u x hx with ⟨rfl, -, -⟩ | ⟨-, old⟩
    · exact known
    · exact w.pending_known u x old
  · intro u member
    rw [log]
    exact w.queue_known u (queue ▸ List.mem_cons_of_mem _ member)
  · intro e member
    rw [log]
    rcases List.mem_append.mp member with old | new
    · refine ⟨(w.handed e old).1, fun x hx => ?_⟩
      rcases find _ x hx with ⟨-, -, flag⟩ | ⟨-, before⟩
      · exact flag
      · exact (w.handed e old).2 x before
    · have here : e = p.toRetransmit := by simpa using new
      have same : e.txId = t := by rw [here]; exact id
      rw [same]
      refine ⟨known, fun x hx => ?_⟩
      rcases find _ x hx with ⟨-, -, flag⟩ | ⟨other, -⟩
      · exact flag
      · exact absurd rfl other

/-- `next_outbound` moves a waiting request into flight. -/
theorem outbound (w : Window s h) (now : Time) :
    Window (s.nextOutbound now).1 (h ++ ((s.nextOutbound now).2.map Event.handedOut).toList) := by
  rcases pump_cases now s s.outboundQueue with ⟨stale, rest, queue, gone, -, done⟩ |
    ⟨stale, t, rest, p, queue, gone, found, room, done⟩
  · rw [nextOutbound, done, Option.map_none, Option.toList_none, List.append_nil]
    exact w.drop_stale queue gone
  · rw [nextOutbound, done]
    exact (w.drop_stale queue gone).hand_out now rfl found room

/-- Every operation keeps the invariant of the window. -/
theorem step (w : Window s h) (o : Op) (once : RegisteredOnce (h ++ (session.step s o).2)) :
    Window (session.step s o).1 (h ++ (session.step s o).2) := by
  cases o with
  | registerPending now r => exact w.register now r once
  | onAck now t =>
    show Window (s.onAck now t) (h ++ [])
    rw [List.append_nil]
    exact w.ack now t
  | onResponse cmd t bytes =>
    refine (w.response cmd t bytes).extend fun e member => ?_
    change .handedOut e ∈ (s.onResponse cmd t bytes).2 at member
    rcases s.onResponse_cases cmd t bytes with ⟨ring, done, -⟩ | ⟨ring, p, -, -, done⟩ <;> rw [done] at member
    · cases member
    · simp only at member
      split at member <;> simp at member
  | onRequest cmd t =>
    apply extend
    · show Window (s.onRequest cmd t).1 h
      rw [s.onRequest_eq cmd t]
      apply w.of_eq <;> rfl
    · intro e member
      cases List.mem_singleton.mp member
  | cacheResponse cmd t responseCmd bytes =>
    show Window (s.cacheResponse cmd t responseCmd bytes) (h ++ [])
    rw [List.append_nil]
    apply w.of_eq <;> rfl
  | poll now clock reentry =>
    change RegisteredOnce (h ++ (_ ++ List.map Event.retransmitted _)) at once
    show Window _ (h ++ (_ ++ List.map Event.retransmitted _))
    rw [← List.append_assoc] at once ⊢
    apply extend
    · apply runCallbacks_keeps (fun _ _ => RegisteredOnce.left) (fun _ _ now r w once => w.register now r once)
      · intro t g id w
        exact w.extend (by simp)
      · exact w.poll_loop now clock
      · exact once.left
    · intro e member
      simp at member
  | nextOutbound now => exact w.outbound now
  | resetDeviceState =>
    show Window s.resetDeviceState (h ++ [])
    rw [List.append_nil]
    apply w.of_eq <;> rfl

end Window

/-! ### No request is stranded -/

namespace Window

variable {s : ReliableSession} {h : List Event}

theorem flying_of_inflight (w : Window s h) {t : TransactionId} {p : PendingEntry}
    (found : s.pendingByTx.find? t = some p) (flag : p.inflight = true) : 0 < s.inflightCount := by
  rw [w.counted, inflightEntries, List.countP_pos_iff]
  exact ⟨(t, p), DenseMap.find?_eq_some.mp found, flag⟩

/-- When nothing can be handed out, something is in flight. -/
theorem not_stranded (w : Window s h) (some_ : 0 < s.config.windowSize) {now : Time}
    (idle : (s.nextOutbound now).2 = none) (pending : s.pendingByTx.entries ≠ []) :
    0 < (s.nextOutbound now).1.inflightCount ∧ (s.nextOutbound now).1.nextDeadline.isSome := by
  have after := w.outbound now
  suffices flying : 0 < (s.nextOutbound now).1.inflightCount from
    ⟨flying, nextDeadline_isSome (after.counted ▸ flying)⟩
  rw [nextOutbound] at idle after ⊢
  rcases pump_cases now s s.outboundQueue with ⟨stale, rest, -, -, stop, done⟩ | ⟨_, _, _, _, -, -, -, -, done⟩
  swap
  · rw [done] at idle
    cases idle
  rw [done] at after ⊢
  rcases stop with rfl | full
  · obtain ⟨⟨t, p⟩, member⟩ := List.exists_mem_of_ne_nil _ pending
    have found := DenseMap.find?_eq_some.mpr member
    apply after.flying_of_inflight found
    cases flag : p.inflight with
    | true => rfl
    | false =>
      have queued := (after.waiting t p found).mpr flag
      cases queued
  · exact Nat.lt_of_lt_of_le some_ full

end Window

/-- **The window of a host session.** In every run that registers each transaction at most
once, the counter counts the requests in flight and never exceeds the window, every waiting
request is queued exactly once, pending requests are never stranded, and a window of one
waits for the request handed out before. -/
theorem window_invariant (config : Config) (ops : List Op)
    (once : RegisteredOnce (session.trace (.init config) ops)) :
    let s := session.exec (.init config) ops
    s.inflightCount = s.inflightEntries ∧ s.inflightCount ≤ max 1 config.windowSize ∧
      (∀ t p, s.pendingByTx.find? t = some p → p.inflight = false → s.outboundQueue.count t = 1) ∧
      (∀ now, (s.nextOutbound now).2 = none → s.pendingByTx.entries ≠ [] →
        0 < (s.nextOutbound now).1.inflightCount ∧ (s.nextOutbound now).1.nextDeadline.isSome) ∧
      (config.windowSize = 1 → ∀ now e, (s.nextOutbound now).2 = some e →
        ∀ earlier, .handedOut earlier ∈ session.trace (.init config) ops →
          s.pendingByTx.find? earlier.txId = none) := by
  intro s
  have w : Window s (session.trace (.init config) ops) :=
    session.run_invariant (fun _ _ => RegisteredOnce.left) (Window.init config)
      (fun _ _ o w once => w.step o once) ops once
  have size : s.config.windowSize = max 1 config.windowSize := by
    rw [exec_config, ReliableSession.init]
    show (if config.windowSize = 0 then 1 else config.windowSize) = _
    split <;> omega
  refine ⟨w.counted, size ▸ w.bounded, fun t p found idle => ?_, fun now idle pending => ?_, ?_⟩
  · exact List.count_eq_one_of_mem w.queue_nodup ((w.waiting t p found).mpr idle)
  · exact w.not_stranded (by omega) idle pending
  · intro one now e out earlier member
    rcases pump_cases now s s.outboundQueue with ⟨_, _, -, -, -, done⟩ | ⟨_, _, _, _, -, -, -, room, -⟩
    · rw [nextOutbound, done] at out
      cases out
    · cases found : s.pendingByTx.find? earlier.txId with
      | none => rfl
      | some p =>
        have flying := w.flying_of_inflight found ((w.handed earlier member).2 p found)
        omega

/-- Two requests, the first one handed out and answered before the second. -/
theorem window_invariant_twoRequests :
    let request (t : TransactionId) : Registration := ⟨t, 0x6103, 0x6104, [1, 2, 3], true, true, 200000, 3⟩
    let ops : List Op := [.registerPending 0 (request 1), .registerPending 0 (request 2), .nextOutbound 5,
      .nextOutbound 6, .onResponse 0x6104 1 [9], .poll 10 (fun _ => 10) (fun _ => [])]
    let s := session.exec (.init {}) ops
    s.inflightCount = s.inflightEntries ∧ s.inflightCount ≤ 1 ∧ s.outboundQueue.count 2 = 1 := by
  intro request ops s
  have once : RegisteredOnce (session.trace (.init {}) ops) := by
    show (registeredTxs _).Nodup
    decide
  obtain ⟨counted, bounded, waiting, -⟩ := window_invariant {} ops once
  have idle : (s.pendingByTx.find? 2).map (·.inflight) = some false := by decide +kernel
  obtain ⟨p, found, waits⟩ := Option.map_eq_some_iff.mp idle
  exact ⟨counted, bounded, waiting 2 p found waits⟩

end FloridUsb.Session
