import FloridUsb.Session.Run

/-!
# The filter of responses

`on_response` asks its ring of seen responses first, and records the key there even when no
request is pending under it. So a response that arrives before its request is registered, or
that repeats one whose `tx_id` is used again, makes the session ignore the response that the
request is waiting for. Without such a key in the ring the response of a request in flight
always invokes its callback and frees its slot (`answers_iff`).
-/

namespace FloridUsb.Session
set_option autoImplicit false

open Lib ReliableSession

/-- The counter covers the requests in flight. It may be larger: a registration over a
transaction in flight leaves a slot taken. -/
structure Covered (s : ReliableSession) : Prop where
  keyed : ∀ t p, s.pendingByTx.find? t = some p → p.txId = t
  counted : s.inflightEntries ≤ s.inflightCount

namespace Covered

variable {s : ReliableSession}

theorem init (config : Config) : Covered (.init config) where
  keyed t p found := by cases found
  counted := Nat.le_refl _

theorem register (c : Covered s) (now : Time) (r : Registration) : Covered (s.registerPending now r) := by
  constructor
  · exact registerPending_keyed c.keyed now r
  · have fewer : (s.registerPending now r).inflightEntries ≤ s.inflightEntries := by
      simp only [inflightEntries, registerPending]
      cases found : s.pendingByTx.find? r.txId with
      | none =>
        rw [DenseMap.countP_insertOrAssign_new _ _ found]
        exact Nat.le_refl _
      | some p =>
        have count := DenseMap.countP_insertOrAssign_old (fun e : TransactionId × PendingEntry => e.2.inflight)
          (PendingEntry.ofRegistration r now) found
        simp only [PendingEntry.ofRegistration, Bool.false_eq_true, if_false, Nat.add_zero] at count ⊢
        omega
    exact Nat.le_trans fewer c.counted

/-- Entries may leave the map if the count follows. -/
theorem narrow (c : Covered s) {s' : ReliableSession} (frees : s.Frees s') : Covered s' := by
  constructor
  · exact frees.carries.keyed c.keyed
  · have balance := frees.balance
    have before := c.counted
    omega

theorem poll_loop (c : Covered s) (now : Time) (clock : TransactionId → Time) : Covered (s.pollLoop now clock).1 :=
  c.narrow (s.pollLoop_frees now clock c.counted)

/-- Every operation keeps the counter above the requests in flight. -/
theorem step (c : Covered s) (o : Op) : Covered (session.step s o).1 := by
  cases o with
  | registerPending now r => exact c.register now r
  | onAck now t => exact c.narrow (s.onAck_frees now t)
  | onResponse cmd t bytes => exact c.narrow (s.onResponse_frees cmd t bytes c.counted)
  | onRequest cmd t =>
    show Covered (s.onRequest cmd t).1
    rw [s.onRequest_eq cmd t]
    exact ⟨c.keyed, c.counted⟩
  | cacheResponse cmd t responseCmd bytes => exact ⟨c.keyed, c.counted⟩
  | poll now clock reentry =>
    exact runCallbacks_keeps (G := fun _ => True) (I := fun s _ => Covered s) (h := []) (fun _ _ _ => trivial)
      (fun _ _ now r c _ => c.register now r) (fun _ _ _ c => c) reentry _ (c.poll_loop now clock) trivial
  | nextOutbound now =>
    show Covered (s.nextOutbound now).1
    have before := c.counted
    rcases pump_cases now s s.outboundQueue with ⟨_, _, -, -, -, done⟩ | ⟨_, t, _, p, -, -, found, -, done⟩ <;>
      rw [nextOutbound, done]
    · exact ⟨c.keyed, c.counted⟩
    · constructor
      · intro u q there
        rw [DenseMap.find?_insertOrAssign] at there
        split at there
        · rename_i here
          cases there
          exact here ▸ c.keyed t p found
        · exact c.keyed u q there
      · have count := DenseMap.countP_insertOrAssign_old (fun e : TransactionId × PendingEntry => e.2.inflight)
          { p with inflight := true, deadline := now + p.timeout } found
        simp only [inflightEntries, if_true] at count before ⊢
        split at count <;> omega
  | resetDeviceState => exact ⟨c.keyed, c.counted⟩

theorem run (config : Config) (ops : List Op) : Covered (session.exec (.init config) ops) :=
  session.run_invariant_always (I := fun s _ => Covered s) (Covered.init config) (fun _ _ o c => c.step o) ops

end Covered

/-- The response of a request in flight invokes its callback, if it has one, with the bytes of
the response, removes the request, and frees its slot of the window. -/
def Answers (s : ReliableSession) (t : TransactionId) (p : PendingEntry) (bytes : List UInt8) : Prop :=
  (s.onResponse p.responseCmd t bytes).2 = (if p.onResponse then [.response t p.responseCmd bytes] else []) ∧
    (s.onResponse p.responseCmd t bytes).1.pendingByTx.find? t = none ∧
    (s.onResponse p.responseCmd t bytes).1.inflightCount + 1 = s.inflightCount

/-- A response whose key is in the ring is ignored. -/
theorem not_answers {s : ReliableSession} {t : TransactionId} {p : PendingEntry}
    (found : s.pendingByTx.find? t = some p)
    (seen : composeDedupKey p.responseCmd t ∈ s.seenResponses.ids) (bytes : List UInt8) :
    s.onResponse p.responseCmd t bytes = (s, []) ∧ ¬ Answers s t p bytes := by
  have ignored : s.onResponse p.responseCmd t bytes = (s, []) := by
    simp only [onResponse, IdRingBuffer.testAndInsert_seen seen]
  refine ⟨ignored, fun answers => ?_⟩
  have gone := answers.2.1
  rw [ignored, found] at gone
  cases gone

/-- **When the response of a request in flight gets through**: exactly when its key is not in the
ring of seen responses. That starts full of keys 0, and a key that it finds is not recorded again. -/
theorem answers_iff (config : Config) (ops : List Op) {t : TransactionId} {p : PendingEntry}
    (found : (session.exec (.init config) ops).pendingByTx.find? t = some p) (flying : p.inflight = true)
    (bytes : List UInt8) :
    Answers (session.exec (.init config) ops) t p bytes ↔
      composeDedupKey p.responseCmd t ∉ (session.exec (.init config) ops).seenResponses.ids := by
  have covered := Covered.run config ops
  generalize session.exec (.init config) ops = s at found covered ⊢
  constructor
  · intro answers seen
    exact (not_answers found seen bytes).2 answers
  · intro new
    have taken : 0 < s.inflightCount := by
      apply Nat.lt_of_lt_of_le _ covered.counted
      rw [inflightEntries, List.countP_pos_iff]
      exact ⟨(t, p), DenseMap.find?_eq_some.mp found, flying⟩
    have accepted := IdRingBuffer.testAndInsert_new new
    generalize (s.seenResponses.testAndInsert (composeDedupKey p.responseCmd t)).1 = ring at accepted
    have id := covered.keyed t p found
    refine ⟨?_, ?_, ?_⟩
    · simp only [onResponse, accepted, found, true_and, id]
      split <;> rfl
    · simp only [onResponse, accepted, found]
      split <;> exact DenseMap.find?_erase_self _ _
    · have freed : countWithout s.inflightCount p + 1 = s.inflightCount := by
        rw [countWithout, if_pos ⟨flying, taken⟩]
        omega
      simp only [onResponse, accepted, found]
      split <;> exact freed

/-- A request that no response came before. -/
theorem answers_iff_request :
    let request : Registration := ⟨1, 0x6103, 0x6104, [1, 2, 3], true, true, 200000, 3⟩
    let s := session.exec (.init {}) [.registerPending 0 request, .nextOutbound 5]
    ∃ p, s.pendingByTx.find? 1 = some p ∧ Answers s 1 p [9] := by
  intro request s
  refine ⟨_, rfl, ?_⟩
  rw [answers_iff {} [.registerPending 0 request, .nextOutbound 5] rfl rfl]
  decide

/-- **A stray response costs the answer.** A response with `tx_id` 1 arrives before the request
with that `tx_id` is sent; the response to the request is then ignored. -/
theorem stray_response_filters :
    let request : Registration := ⟨1, 0x6103, 0x6104, [1, 2, 3], true, true, 200000, 3⟩
    let s := session.exec (.init {}) [.onResponse 0x6104 1 [], .registerPending 0 request, .nextOutbound 5]
    ∃ p, s.pendingByTx.find? 1 = some p ∧ p.inflight = true ∧ p.responseCmd = 0x6104 ∧
      s.onResponse p.responseCmd 1 [9] = (s, []) ∧ ¬ Answers s 1 p [9] := by
  intro request s
  refine ⟨_, rfl, rfl, rfl, not_answers rfl ?_ [9]⟩
  show composeDedupKey 0x6104 1 ∈ s.seenResponses.ids
  decide

end FloridUsb.Session
