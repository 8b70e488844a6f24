import FloridUsb.Lib.Potential
import FloridUsb.Session.Deadline
import FloridUsb.Session.Notify
import Mathlib.Algebra.GroupWithZero.Nat

/-!
# Requests come to an end

A pending request can be due once for each retry it has left and once more. Nothing but a
registration raises that credit, so the polls at which something is due are bounded over a
whole run, whatever the acknowledgements and responses do. And a request that is no longer
pending has had its callback (`accounted`).
-/

namespace FloridUsb.Session
set_option autoImplicit false

open Lib ReliableSession

/-- The polls at which the request can still be due. -/
def PendingEntry.credit (p : PendingEntry) : Nat := p.maxRetries.toNat - p.retryCount.toNat + 1

/-- The credit of a request that is registered. -/
def Registration.credit (r : Registration) : Nat := r.maxRetries.toNat + 1

def ReliableSession.credit (s : ReliableSession) : Nat := s.pendingByTx.weight fun e => e.2.credit

/-- The credit that an event brings. -/
def Event.allowance : Event → Nat
  | .registered r => r.credit
  | _ => 0

/-- The credit of all requests registered in a log. -/
def allowance (log : List Event) : Nat := (log.map Event.allowance).sum

@[simp] theorem allowance_append (a b : List Event) : allowance (a ++ b) = allowance a + allowance b := by
  rw [allowance, List.map_append, List.sum_append]
  rfl

theorem allowance_quiet {log : List Event} (quiet : ∀ r, .registered r ∉ log) : allowance log = 0 := by
  rw [allowance, List.sum_eq_zero_iff_forall_eq_nat]
  intro n member
  obtain ⟨e, there, rfl⟩ := List.mem_map.mp member
  cases e with
  | registered r => exact absurd there (quiet r)
  | handedOut e | retransmitted e | response t cmd bytes | error t err | requested cmd t result => rfl

section Credit

variable {s : ReliableSession}

/-- Every pending request has some credit. -/
theorem pending_of_credit : s.credit = 0 ↔ s.pendingByTx.entries = [] := by
  rw [ReliableSession.credit, DenseMap.weight, List.sum_eq_zero_iff_forall_eq_nat]
  constructor
  · intro none
    apply List.eq_nil_iff_forall_not_mem.mpr
    intro e member
    have zero := none _ (List.mem_map_of_mem member)
    cases zero
  · intro none
    rw [none]
    exact fun n member => by cases member

/-- An entry rewritten with as many retries left. -/
theorem credit_rewrite {t : TransactionId} {p q : PendingEntry} (found : s.pendingByTx.find? t = some p)
    (same : q.credit = p.credit) :
    (s.pendingByTx.insertOrAssign t q).weight (fun e => e.2.credit) = s.credit := by
  rw [DenseMap.weight_insertOrAssign, ReliableSession.credit, DenseMap.weight_erase _ found, same]

theorem registerPending_credit (s : ReliableSession) (now : Time) (r : Registration) :
    (s.registerPending now r).credit ≤ s.credit + r.credit := by
  show (s.pendingByTx.insertOrAssign r.txId _).weight _ ≤ _
  rw [DenseMap.weight_insertOrAssign, Nat.add_comm]
  apply Nat.add_le_add (DenseMap.weight_erase_le _ _ _)
  exact Nat.le_refl (r.maxRetries.toNat + 1)

theorem onAck_credit (s : ReliableSession) (now : Time) (t : TransactionId) : (s.onAck now t).credit = s.credit := by
  rcases s.onAck_eq now t with same | ⟨p, found, -, done⟩
  · rw [same]
  · rw [done]
    exact credit_rewrite found rfl

theorem onResponse_credit (s : ReliableSession) (cmd : UInt16) (t : TransactionId) (bytes : List UInt8) :
    (s.onResponse cmd t bytes).1.credit ≤ s.credit := by
  rcases s.onResponse_cases cmd t bytes with ⟨ring, done, -⟩ | ⟨ring, p, -, -, done⟩ <;> rw [done]
  · exact Nat.le_refl _
  · exact DenseMap.weight_erase_le _ _ _

theorem nextOutbound_credit (s : ReliableSession) (now : Time) : (s.nextOutbound now).1.credit = s.credit := by
  rcases pump_cases now s s.outboundQueue with ⟨_, _, -, -, -, done⟩ | ⟨_, t, _, p, -, -, found, -, done⟩ <;>
    rw [nextOutbound, done]
  · rfl
  · exact credit_rewrite found rfl

/-- A due request pays for being due: it loses a retry, or leaves. -/
theorem pollKeeps_credit (now : Time) (clock : TransactionId → Time) (e : TransactionId × PendingEntry) :
    ((pollKeeps now clock e).map PendingEntry.credit).getD 0 + (if e.2.isDue now then 1 else 0) ≤ e.2.credit := by
  rcases pollKeeps_cases now clock e with ⟨idle, keeps, -⟩ | ⟨expired, drops, -⟩ | ⟨due, lives, keeps, -⟩
  · rw [keeps, idle]
    exact Nat.le_refl _
  · rw [drops, PendingEntry.isDue_of_expires expired]
    show 0 + 1 ≤ e.2.maxRetries.toNat - e.2.retryCount.toNat + 1
    omega
  · have left := PendingEntry.retryCount_lt due lives
    rw [keeps, due, if_pos rfl, Option.map_some, Option.getD_some]
    simp only [PendingEntry.credit]
    rw [PendingEntry.retryCount_succ left]
    omega

/-- The loop of `poll` costs as much as there are requests due. -/
theorem pollLoop_credit (s : ReliableSession) (now : Time) (clock : TransactionId → Time) :
    (s.pollLoop now clock).1.credit + s.pendingByTx.entries.countP (fun e => e.2.isDue now) ≤ s.credit := by
  obtain ⟨visits, perm, entries, -⟩ := pollLoop_visits s now clock
  rw [ReliableSession.credit, DenseMap.weight, entries, ReliableSession.credit, DenseMap.weight,
    ← (perm.map _).sum_nat, ← perm.countP_eq]
  clear perm entries
  induction visits with
  | nil => exact Nat.le_refl _
  | cons e visits ih =>
    have one := pollKeeps_credit now clock e
    rw [List.filterMap_cons, List.countP_cons, List.map_cons, List.sum_cons]
    cases kept : pollKeeps now clock e with
    | none =>
      rw [kept] at one
      simp only [Option.map_none, Option.getD_none] at one ⊢
      omega
    | some p =>
      rw [kept] at one
      simp only [Option.map_some, Option.getD_some, List.map_cons, List.sum_cons] at one ⊢
      omega

theorem registerAll_credit (s : ReliableSession) (regs : List (Time × Registration)) :
    (registerAll s regs).1.credit ≤ s.credit + allowance (registerAll s regs).2 := by
  induction regs generalizing s with
  | nil => exact Nat.le_refl _
  | cons reg regs ih =>
    have first := registerPending_credit s reg.1 reg.2
    have rest := ih (s.registerPending reg.1 reg.2)
    simp only [registerAll, allowance, List.map_cons, List.sum_cons, Event.allowance] at rest ⊢
    omega

theorem runCallbacks_credit (reentry : TransactionId → List (Time × Registration)) (s : ReliableSession)
    (callbacks : List (TransactionId × Bool)) :
    (runCallbacks reentry s callbacks).1.credit ≤ s.credit + allowance (runCallbacks reentry s callbacks).2 := by
  induction callbacks generalizing s with
  | nil => exact Nat.le_refl _
  | cons cb callbacks ih =>
    obtain ⟨t, present⟩ := cb
    cases present with
    | false => exact ih s
    | true =>
      have first := registerAll_credit s (reentry t)
      have rest := ih (registerAll s (reentry t)).1
      simp only [runCallbacks]
      rw [← List.singleton_append, allowance_append, allowance_append]
      have silent : allowance [.error t .timeout] = 0 := rfl
      omega

end Credit

/-- A poll that does not come before the next deadline. -/
def Op.wakes (s : ReliableSession) : Op → Bool
  | .poll now _ _ => s.nextDeadline.any fun d => decide (d ≤ now)
  | _ => false

/-- At the next deadline something is due. -/
theorem due_of_deadline {s : ReliableSession} {now d : Time} (next : s.nextDeadline = some d) (reached : d ≤ now) :
    0 < s.pendingByTx.entries.countP (fun e => e.2.isDue now) := by
  obtain ⟨⟨t, p, found, flying, attained⟩, -⟩ := nextDeadline_eq_some.mp next
  rw [List.countP_pos_iff]
  exact ⟨(t, p), DenseMap.find?_eq_some.mp found, PendingEntry.isDue_iff.mpr ⟨flying, attained ▸ reached⟩⟩

/-- A step costs its credit. -/
theorem step_credit (s : ReliableSession) (o : Op) :
    (session.step s o).1.credit + (if o.wakes s then 1 else 0) ≤ s.credit + allowance (session.step s o).2 := by
  cases o with
  | registerPending now r => exact registerPending_credit s now r
  | onAck now t => exact Nat.le_of_eq (onAck_credit s now t)
  | onResponse cmd t bytes => exact Nat.le_trans (onResponse_credit s cmd t bytes) (Nat.le_add_right _ _)
  | onRequest cmd t =>
    show (s.onRequest cmd t).1.credit + 0 ≤ _
    rw [s.onRequest_eq cmd t]
    exact Nat.le_add_right _ _
  | cacheResponse cmd t responseCmd bytes => exact Nat.le_refl _
  | poll now clock reentry =>
    have looped := pollLoop_credit s now clock
    have called := runCallbacks_credit reentry (s.pollLoop now clock).1 (s.pollLoop now clock).2.callbacks
    have due : (if (Op.poll now clock reentry).wakes s then 1 else 0) ≤
        s.pendingByTx.entries.countP (fun e => e.2.isDue now) := by
      split
      · rename_i wakes
        obtain ⟨d, next, reached⟩ := (Option.any_eq_true ..).mp wakes
        exact due_of_deadline next (of_decide_eq_true reached)
      · exact Nat.zero_le _
    show (runCallbacks reentry (s.pollLoop now clock).1 (s.pollLoop now clock).2.callbacks).1.credit + _ ≤
      s.credit + allowance ((runCallbacks reentry (s.pollLoop now clock).1 (s.pollLoop now clock).2.callbacks).2 ++ _)
    rw [allowance_append]
    omega
  | nextOutbound now => exact Nat.le_trans (Nat.le_of_eq (nextOutbound_credit s now)) (Nat.le_add_right _ _)
  | resetDeviceState => exact Nat.le_refl _

/-- A request that is handed out leaves the queue and is in flight. -/
theorem ReliableSession.nextOutbound_hands {s : ReliableSession} {now : Time} {e : RetransmitEntry}
    (out : (s.nextOutbound now).2 = some e) : (s.nextOutbound now).1.outboundQueue.length < s.outboundQueue.length ∧
      (s.nextOutbound now).1.config = s.config ∧ 0 < (s.nextOutbound now).1.inflightCount := by
  rcases pump_cases now s s.outboundQueue with ⟨_, _, -, -, -, done⟩ | ⟨stale, t, rest, p, queue, -, -, -, done⟩ <;>
    rw [nextOutbound, done] at out
  · cases out
  · rw [nextOutbound, done]
    refine ⟨?_, rfl, Nat.succ_pos _⟩
    show rest.length < s.outboundQueue.length
    rw [queue, List.length_append, List.length_cons]
    omega

/-! ### Pending, or notified -/

/-- What a step registers is pending after it. -/
theorem step_registers {s : ReliableSession} {o : Op} {r : Registration}
    (registered : .registered r ∈ (session.step s o).2) : (session.step s o).1.pendingByTx.find? r.txId ≠ none := by
  cases o with
  | registerPending now r' =>
    cases List.mem_singleton.mp registered
    show (s.registerPending now r).pendingByTx.find? r.txId ≠ none
    rw [registerPending, DenseMap.find?_insertOrAssign_self]
    exact Option.some_ne_none _
  | onResponse cmd t bytes =>
    obtain ⟨_, -, -, same⟩ := mem_onResponse registered
    cases same
  | onRequest cmd t => cases List.mem_singleton.mp registered
  | poll now clock reentry =>
    change .registered r ∈ (runCallbacks reentry (s.pollLoop now clock).1 (s.pollLoop now clock).2.callbacks).2 ++
      List.map Event.retransmitted _ at registered
    have called : .registered r ∈
        (runCallbacks reentry (s.pollLoop now clock).1 (s.pollLoop now clock).2.callbacks).2 := by
      simpa using registered
    -- the callbacks only write to the map
    apply runCallbacks_keeps (G := fun _ => True) (h := [])
      (I := fun s' log => ∀ r, .registered r ∈ log → s'.pendingByTx.find? r.txId ≠ none)
      (fun _ _ _ => trivial) _ _ reentry (s.pollLoop now clock).2.callbacks _ trivial r called
    · intro s' log now' r' there _ u member
      rw [registerPending, DenseMap.find?_insertOrAssign]
      split
      · exact Option.some_ne_none _
      · rename_i other
        apply there u
        apply (List.mem_append.mp member).resolve_right
        intro here
        cases List.mem_singleton.mp here
        exact other rfl
    · intro s' log t there u member
      exact there u (by simpa using member)
    · intro u member
      cases member
  | nextOutbound now =>
    change .registered r ∈ ((s.nextOutbound now).2.map Event.handedOut).toList at registered
    simp at registered
  | onAck now t | cacheResponse cmd t responseCmd bytes | resetDeviceState => cases registered

/-- **Every request is accounted for.** In a run that registers each transaction at most once and
in which every response that finds a pending request has its response type, a request with both
callbacks is pending, or one of them has been invoked, once. -/
theorem accounted (config : Config) (ops : List Op) (once : RegisteredOnce (session.trace (.init config) ops))
    (matching : session.Along Matches (.init config) ops) {r : Registration}
    (registered : .registered r ∈ session.trace (.init config) ops) (onResponse : r.onResponse = true)
    (onError : r.onError = true) (gone : (session.exec (.init config) ops).pendingByTx.find? r.txId = none) :
    (callbacksFor r.txId (session.trace (.init config) ops)).length = 1 := by
  induction ops using List.reverseRecOn with
  | nil => cases registered
  | append_singleton ops o ih =>
    have most : (callbacksFor r.txId (session.trace (.init config) (ops ++ [o]))).length ≤ 1 := by
      have distinct := (notified_run config _ once).2.once
      rw [List.append_nil] at distinct
      rw [length_callbacksFor]
      exact List.nodup_iff_count_le_one.mp distinct _
    obtain ⟨along, fits, -⟩ := (session.along_append Matches _ ops [o]).mp matching
    rw [session.trace_snoc] at once registered most ⊢
    rw [session.exec_snoc] at gone
    rw [callbacksFor_append, List.length_append] at most ⊢
    have earlier : .registered r ∈ session.trace (.init config) ops :=
      (List.mem_append.mp registered).resolve_right fun now => step_registers now gone
    cases found : (session.exec (.init config) ops).pendingByTx.find? r.txId with
    | none =>
      have before := ih once.left along earlier found
      omega
    | some p =>
      obtain ⟨r', registered', id, stored⟩ := pending_registered config ops r.txId p found
      have same : r' = r := once.left.unique registered' earlier id
      subst same
      obtain ⟨-, -, -, -, response, error, -, -⟩ := Registration.mk.inj stored
      have said : (callbacksFor r'.txId (session.step (session.exec (.init config) ops) o).2).length = 1 := by
        rcases step_leaves (notified_run config ops once.left).1 o fits found gone with
          ⟨bytes, -, said⟩ | ⟨now, clock, reentry, -, -, said⟩ <;> rw [said]
        · rw [response, if_pos onResponse]
          rfl
        · rw [error, if_pos onError]
          rfl
      omega

end FloridUsb.Session
