import FloridUsb.Session.Window

/-!
# Callbacks of a request

What the application learns about a request: the events that invoke its callbacks. In any
run they are at most one for each transaction (`Notified`). A pending request leaves the
map by a response or by an exhausted timeout, and its callback is invoked, as long as every
response that finds a pending request has the response type registered for it (`Matches`).
A response of another type removes the request and invokes nothing.
-/

namespace FloridUsb.Session
set_option autoImplicit false

open Lib ReliableSession

/-- The transaction whose callback is invoked. -/
def Event.notifies? : Event → Option TransactionId
  | .response txId _ _ => some txId
  | .error txId _ => some txId
  | _ => none

/-- The invocations of the callbacks of a transaction. -/
def callbacksFor (txId : TransactionId) (log : List Event) : List Event :=
  log.filter fun e => decide (e.notifies? = some txId)

/-- The transactions whose callbacks are invoked, in order. -/
def notifiedTxs (log : List Event) : List TransactionId := log.filterMap Event.notifies?

/-- A response that is no repetition has the type its pending request was registered with. -/
def Matches (s : ReliableSession) : Op → Prop
  | .onResponse cmd txId _ =>
    composeDedupKey cmd txId ∉ s.seenResponses.ids → ∀ p, s.pendingByTx.find? txId = some p → p.responseCmd = cmd
  | _ => True

@[simp] theorem callbacksFor_append (t : TransactionId) (a b : List Event) :
    callbacksFor t (a ++ b) = callbacksFor t a ++ callbacksFor t b := List.filter_append ..

@[simp] theorem notifiedTxs_append (a b : List Event) : notifiedTxs (a ++ b) = notifiedTxs a ++ notifiedTxs b :=
  List.filterMap_append

theorem length_callbacksFor (t : TransactionId) (log : List Event) :
    (callbacksFor t log).length = (notifiedTxs log).count t := by
  induction log with
  | nil => rfl
  | cons e log ih =>
    rw [callbacksFor] at ih
    rw [callbacksFor, notifiedTxs, List.filter_cons, List.filterMap_cons]
    cases h : e.notifies? with
    | none =>
      rw [if_neg (by simp), ih]
      rfl
    | some u =>
      by_cases same : u = t
      · rw [same, if_pos (by simp), List.length_cons, ih, List.count_cons_self]
        rfl
      · rw [if_neg (by simpa using same), ih, List.count_cons_of_ne same]
        rfl

/-! ### What one operation invokes -/

theorem callbacksFor_registerAll (t : TransactionId) (s : ReliableSession) (regs : List (Time × Registration)) :
    callbacksFor t (registerAll s regs).2 = [] := by
  induction regs generalizing s with
  | nil => rfl
  | cons reg regs ih => exact ih _

/-- The callbacks of `poll` are those that are due and not empty. -/
theorem callbacksFor_runCallbacks (t : TransactionId) (reentry : TransactionId → List (Time × Registration))
    (s : ReliableSession) (callbacks : List (TransactionId × Bool)) :
    callbacksFor t (runCallbacks reentry s callbacks).2 =
      (callbacks.filter fun c => decide (c.1 = t) && c.2).map fun _ => .error t .timeout := by
  induction callbacks generalizing s with
  | nil => rfl
  | cons cb callbacks ih =>
    obtain ⟨u, present⟩ := cb
    cases present with
    | false =>
      rw [List.filter_cons_of_neg (by simp)]
      exact ih s
    | true =>
      simp only [runCallbacks]
      rw [← List.singleton_append, callbacksFor_append, callbacksFor_append, callbacksFor_registerAll, ih,
        List.nil_append]
      by_cases same : u = t
      · rw [List.filter_cons_of_pos (by simp [same]), same, List.map_cons]
        simp [callbacksFor, Event.notifies?]
      · rw [List.filter_cons_of_neg (by simp [same])]
        simp [callbacksFor, Event.notifies?, same]

theorem callbacksFor_retransmitted (t : TransactionId) (entries : List RetransmitEntry) :
    callbacksFor t (entries.map .retransmitted) = [] := by
  rw [callbacksFor, List.filter_eq_nil_iff]
  intro e member
  obtain ⟨x, -, rfl⟩ := List.mem_map.mp member
  simp [Event.notifies?]

/-- The callbacks of a transaction that the loop of `poll` has collected. -/
theorem due_callbacks {s : ReliableSession} {log : List Event} (w : Window s log) (now : Time)
    (clock : TransactionId → Time) {t : TransactionId} {p : PendingEntry} (found : s.pendingByTx.find? t = some p)
    (expired : p.expires now = true) :
    ((s.pollLoop now clock).2.callbacks.filter fun c => decide (c.1 = t) && c.2) =
      if p.onError then [(t, true)] else [] := by
  obtain ⟨visits, perm, -, acc⟩ := pollLoop_visits s now clock
  have keyed : ∀ e ∈ visits, e.2.txId = e.1 := by
    rintro ⟨u, q⟩ member
    exact w.keyed u q (DenseMap.find?_eq_some.mpr (perm.mem_iff.mp member))
  have here : ∀ e ∈ visits, ((e.2.expires now && (decide (e.2.txId = t) && e.2.onError)) =
      ((e.2.expires now && e.2.onError) && decide (e.1 = t))) := by
    intro e member
    rw [keyed e member, Bool.and_comm (decide (e.1 = t)), Bool.and_assoc]
  rw [acc, collected_callbacks, List.nil_append, List.filter_map, List.filter_filter]
  have same : (visits.filter fun e => ((fun c => decide (c.1 = t) && c.2) ∘ fun e => (e.2.txId, e.2.onError)) e &&
      e.2.expires now) = visits.filter fun e => (e.2.expires now && e.2.onError) && decide (e.1 = t) := by
    apply List.filter_congr
    intro e member
    rw [← here e member]
    exact Bool.and_comm _ _
  rw [same, ← List.filter_filter, DenseMap.filter_key found perm]
  have id := w.keyed t p found
  cases cb : p.onError <;> simp [expired, cb, id]

/-- **Leaving the map.** A pending entry leaves in a step whose responses match only by a
response of its type or when its retries are used up, and its callback is then the one
callback of the transaction in that step. -/
theorem step_leaves {s : ReliableSession} {log : List Event} (w : Window s log) (o : Op) (fits : Matches s o)
    {t : TransactionId} {p : PendingEntry} (found : s.pendingByTx.find? t = some p)
    (gone : (session.step s o).1.pendingByTx.find? t = none) :
    (∃ bytes, o = .onResponse p.responseCmd t bytes ∧
      callbacksFor t (session.step s o).2 = if p.onResponse then [.response t p.responseCmd bytes] else []) ∨
    ∃ now clock reentry, o = .poll now clock reentry ∧ p.expires now = true ∧
      callbacksFor t (session.step s o).2 = if p.onError then [.error t .timeout] else [] := by
  have kept : ∀ {s' : ReliableSession}, s'.pendingByTx = s.pendingByTx → ¬ s'.pendingByTx.find? t = none := by
    intro s' same none
    rw [same, found] at none
    cases none
  have written : ∀ u q, ¬ (s.pendingByTx.insertOrAssign u q).find? t = none := by
    intro u q none
    rw [DenseMap.find?_insertOrAssign] at none
    split at none
    · cases none
    · rw [found] at none
      cases none
  cases o with
  | registerPending now r => exact absurd gone (written _ _)
  | onAck now u =>
    change (s.onAck now u).pendingByTx.find? t = none at gone
    rcases s.onAck_eq now u with same | ⟨q, -, -, done⟩
    · exact absurd gone (kept (by rw [same]))
    · rw [done] at gone
      exact absurd gone (written _ _)
  | onResponse cmd u bytes =>
    left
    change (s.onResponse cmd u bytes).1.pendingByTx.find? t = none at gone
    show ∃ b, _ ∧ callbacksFor t (s.onResponse cmd u bytes).2 = _
    rcases s.onResponse_cases cmd u bytes with ⟨ring, done, -⟩ | ⟨ring, q, fresh, hq, done⟩
    · rw [done] at gone
      exact absurd gone (kept rfl)
    rw [done] at gone ⊢
    rw [DenseMap.find?_erase] at gone
    have here : t = u := by
      by_contra other
      rw [if_neg other, found] at gone
      cases gone
    subst here
    have same : q = p := Option.some.inj (hq.symm.trans found)
    subst same
    have cmd_eq := fits fresh q hq
    refine ⟨bytes, by rw [cmd_eq], ?_⟩
    have id := w.keyed t q found
    cases cb : q.onResponse <;> simp [callbacksFor, Event.notifies?, cmd_eq, id]
  | onRequest cmd u =>
    change (s.onRequest cmd u).1.pendingByTx.find? t = none at gone
    exact absurd gone (kept (by rw [s.onRequest_eq cmd u]))
  | cacheResponse cmd u responseCmd bytes => exact absurd gone (kept rfl)
  | poll now clock reentry =>
    right
    refine ⟨now, clock, reentry, rfl, ?_⟩
    change (runCallbacks reentry (s.pollLoop now clock).1 _).1.pendingByTx.find? t = none at gone
    -- the callbacks only register, so the loop has dropped the entry
    have dropped : (s.pollLoop now clock).1.pendingByTx.find? t = none := by
      by_contra stays
      apply runCallbacks_keeps (G := fun _ => True) (I := fun s' _ => ¬ s'.pendingByTx.find? t = none) (h := [])
        (fun _ _ _ => trivial) _ (fun _ _ _ h => h) reentry (s.pollLoop now clock).2.callbacks stays trivial gone
      intro s' _ now r there _ none
      rw [registerPending, DenseMap.find?_insertOrAssign] at none
      split at none
      · cases none
      · exact there none
    rw [pollLoop_find, found, Option.bind_some] at dropped
    have expired : p.expires now = true := pollKeeps_eq_none_iff.mp dropped
    refine ⟨expired, ?_⟩
    show callbacksFor t ((runCallbacks reentry (s.pollLoop now clock).1 (s.pollLoop now clock).2.callbacks).2 ++ _) = _
    rw [callbacksFor_append, callbacksFor_retransmitted, callbacksFor_runCallbacks, List.append_nil,
      due_callbacks w now clock found expired]
    cases p.onError <;> rfl
  | nextOutbound now =>
    change (s.nextOutbound now).1.pendingByTx.find? t = none at gone
    rcases pump_cases now s s.outboundQueue with ⟨_, _, -, -, -, done⟩ | ⟨_, _, _, _, -, -, -, -, done⟩ <;>
      rw [nextOutbound, done] at gone
    · exact absurd gone (kept rfl)
    · exact absurd gone (written _ _)
  | resetDeviceState => exact absurd gone (kept rfl)

/-! ### At most one callback in a run -/

/-- The transactions notified so far, and those whose callback is due: each one once, and
none of them is pending any more. -/
structure Notified (s : ReliableSession) (log : List Event) (due : List TransactionId) : Prop where
  once : (notifiedTxs log ++ due).Nodup
  known : ∀ t ∈ notifiedTxs log ++ due, t ∈ registeredTxs log
  gone : ∀ t ∈ notifiedTxs log ++ due, s.pendingByTx.find? t = none

namespace Notified

variable {s : ReliableSession} {h : List Event} {due : List TransactionId}

/-- Entries may leave the map, and events may follow that invoke no callback. -/
theorem narrow (n : Notified s h due) {s' : ReliableSession} {ev : List Event}
    (find : ∀ t, s.pendingByTx.find? t = none → s'.pendingByTx.find? t = none) (quiet : notifiedTxs ev = []) :
    Notified s' (h ++ ev) due := by
  constructor <;> rw [notifiedTxs_append, quiet, List.append_nil]
  · exact n.once
  · intro t member
    rw [registeredTxs_append]
    exact List.mem_append_left _ (n.known t member)
  · exact fun t member => find t (n.gone t member)

theorem register (n : Notified s h due) (now : Time) (r : Registration) (once : RegisteredOnce (h ++ [.registered r])) :
    Notified (s.registerPending now r) (h ++ [.registered r]) due := by
  have quiet : notifiedTxs [Event.registered r] = [] := rfl
  constructor <;> rw [notifiedTxs_append, quiet, List.append_nil]
  · exact n.once
  · intro t member
    rw [registeredTxs_append]
    exact List.mem_append_left _ (n.known t member)
  · intro t member
    have other : t ≠ r.txId := fun same => once.fresh (same ▸ n.known t member)
    rw [registerPending, DenseMap.find?_insertOrAssign_ne _ _ other]
    exact n.gone t member

/-- The next due callback is invoked, or it is empty. -/
theorem invoke {t : TransactionId} (n : Notified s h (t :: due)) : Notified s (h ++ [.error t .timeout]) due := by
  have said : notifiedTxs [Event.error t .timeout] = [t] := rfl
  constructor <;> rw [notifiedTxs_append, said, List.append_assoc, List.singleton_append]
  · exact n.once
  · intro u member
    rw [registeredTxs_append]
    exact List.mem_append_left _ (n.known u member)
  · exact n.gone

theorem skip {t : TransactionId} (n : Notified s h (t :: due)) : Notified s h due := by
  have fewer : (notifiedTxs h ++ due).Sublist (notifiedTxs h ++ t :: due) :=
    (List.sublist_cons_self t due).append_left _
  constructor
  · exact n.once.sublist fewer
  · exact fun u member => n.known u (fewer.subset member)
  · exact fun u member => n.gone u (fewer.subset member)

/-- Pending transactions that leave the map become due. -/
theorem retire (n : Notified s h []) (w : Window s h) {s' : ReliableSession} {retired : List TransactionId}
    (nodup : retired.Nodup) (pending : ∀ t ∈ retired, ∃ p, s.pendingByTx.find? t = some p)
    (find : ∀ t, s.pendingByTx.find? t = none → s'.pendingByTx.find? t = none)
    (gone : ∀ t ∈ retired, s'.pendingByTx.find? t = none) : Notified s' h retired := by
  have before := n.once
  have old := n.gone
  have known := n.known
  rw [List.append_nil] at before old known
  constructor
  · rw [List.nodup_append]
    refine ⟨before, nodup, fun t said u leaving same => ?_⟩
    obtain ⟨p, found⟩ := pending u leaving
    rw [← same, old t said] at found
    cases found
  · intro t member
    rcases List.mem_append.mp member with said | leaving
    · exact known t said
    · obtain ⟨p, found⟩ := pending t leaving
      exact w.pending_known t p found
  · intro t member
    rcases List.mem_append.mp member with said | leaving
    · exact find t (old t said)
    · exact gone t leaving

theorem callbacks (reentry : TransactionId → List (Time × Registration)) (cbs : List (TransactionId × Bool))
    (n : Notified s h (cbs.map Prod.fst)) (once : RegisteredOnce (h ++ (runCallbacks reentry s cbs).2)) :
    Notified (runCallbacks reentry s cbs).1 (h ++ (runCallbacks reentry s cbs).2) [] := by
  induction cbs generalizing s h with
  | nil => simpa [runCallbacks] using n
  | cons cb cbs ih =>
    obtain ⟨t, present⟩ := cb
    cases present with
    | false => exact ih n.skip once
    | true =>
      simp only [runCallbacks] at once ⊢
      rw [List.append_cons, ← List.append_assoc] at once ⊢
      apply ih
      · exact registerAll_keeps (I := fun s h => Notified s h (cbs.map Prod.fst)) (fun _ _ => RegisteredOnce.left)
          (fun _ _ now r n once => n.register now r once) _ n.invoke once.left
      · exact once

/-- The loop of `poll` makes the callbacks of the expired entries due. -/
theorem poll_loop (n : Notified s h []) (w : Window s h) (now : Time) (clock : TransactionId → Time) :
    Notified (s.pollLoop now clock).1 h ((s.pollLoop now clock).2.callbacks.map Prod.fst) := by
  obtain ⟨visits, perm, -, acc⟩ := pollLoop_visits s now clock
  have expired : (s.pollLoop now clock).2.callbacks.map Prod.fst =
      (visits.filter (·.2.expires now)).map fun e => e.2.txId := by
    rw [acc, collected_callbacks, List.nil_append, List.map_map]
    rfl
  have keyed : (visits.filter (·.2.expires now)).map (fun e => e.2.txId) =
      (visits.filter (·.2.expires now)).map Prod.fst := by
    apply List.map_congr_left
    rintro ⟨t, p⟩ member
    exact w.keyed t p (DenseMap.find?_eq_some.mpr (perm.mem_iff.mp (List.mem_of_mem_filter member)))
  rw [expired, keyed]
  have entry : ∀ t ∈ (visits.filter (·.2.expires now)).map Prod.fst,
      ∃ p, s.pendingByTx.find? t = some p ∧ p.expires now = true := by
    intro t member
    obtain ⟨⟨u, p⟩, visited, rfl⟩ := List.mem_map.mp member
    obtain ⟨visited, expired⟩ := List.mem_filter.mp visited
    exact ⟨p, DenseMap.find?_eq_some.mpr (perm.mem_iff.mp visited), expired⟩
  apply n.retire w
  · exact ((perm.map Prod.fst).nodup_iff.mpr s.pendingByTx.nodup).sublist (List.filter_sublist.map _)
  · intro t member
    obtain ⟨p, found, -⟩ := entry t member
    exact ⟨p, found⟩
  · intro t none
    rw [pollLoop_find, none]
    rfl
  · intro t member
    obtain ⟨p, found, expired⟩ := entry t member
    rw [pollLoop_find, found, Option.bind_some]
    exact pollKeeps_eq_none_iff.mpr expired

theorem response (n : Notified s h []) (w : Window s h) (cmd : UInt16) (t : TransactionId) (bytes : List UInt8) :
    Notified (s.onResponse cmd t bytes).1 (h ++ (s.onResponse cmd t bytes).2) [] := by
  rcases s.onResponse_cases cmd t bytes with ⟨ring, done, -⟩ | ⟨ring, p, -, found, done⟩ <;> rw [done]
  · exact n.narrow (fun u none => none) rfl
  have find : ∀ u, s.pendingByTx.find? u = none → (s.pendingByTx.erase t).find? u = none := by
    intro u none
    rw [DenseMap.find?_erase, none, ite_self]
  have id := w.keyed t p found
  by_cases cb : p.responseCmd = cmd ∧ p.onResponse = true
  · rw [if_pos cb, id]
    have due : Notified { s with
        seenResponses := ring, inflightCount := countWithout s.inflightCount p
        pendingByTx := s.pendingByTx.erase t } h [t] := by
      apply n.retire w (List.nodup_singleton t) _ find
      · intro u member
        rw [List.mem_singleton.mp member]
        exact DenseMap.find?_erase_self _ t
      · intro u member
        rw [List.mem_singleton.mp member]
        exact ⟨p, found⟩
    have said := due.invoke
    constructor
    · simpa [notifiedTxs, Event.notifies?] using said.once
    · simpa [notifiedTxs, Event.notifies?, registeredTxs, Event.registers?] using said.known
    · simpa [notifiedTxs, Event.notifies?] using said.gone
  · rw [if_neg cb]
    exact n.narrow find rfl

/-- Every operation keeps the callbacks apart. -/
theorem step (n : Notified s h []) (w : Window s h) (o : Op) (once : RegisteredOnce (h ++ (session.step s o).2)) :
    Notified (session.step s o).1 (h ++ (session.step s o).2) [] := by
  cases o with
  | registerPending now r => exact n.register now r once
  | onAck now t =>
    refine n.narrow (fun u none => ?_) rfl
    show (s.onAck now t).pendingByTx.find? u = _
    rcases s.onAck_eq now t with same | ⟨p, found, -, done⟩
    · rw [same, none]
    · rw [done, DenseMap.find?_insertOrAssign_ne _ _ fun same => by rw [same, found] at none; cases none]
      exact none
  | onResponse cmd t bytes => exact n.response w cmd t bytes
  | onRequest cmd t =>
    refine n.narrow (fun u none => ?_) rfl
    show (s.onRequest cmd t).1.pendingByTx.find? u = _
    rw [s.onRequest_eq cmd t]
    exact none
  | cacheResponse cmd t responseCmd bytes => exact n.narrow (fun u none => none) rfl
  | poll now clock reentry =>
    change RegisteredOnce (h ++ (_ ++ List.map Event.retransmitted _)) at once
    show Notified _ (h ++ (_ ++ List.map Event.retransmitted _)) []
    rw [← List.append_assoc] at once ⊢
    have called := (n.poll_loop w now clock).callbacks reentry _ once.left
    refine called.narrow (fun u none => none) ?_
    rw [notifiedTxs, List.filterMap_map, List.filterMap_eq_nil_iff]
    intro e _
    rfl
  | nextOutbound now =>
    show Notified (s.nextOutbound now).1 (h ++ ((s.nextOutbound now).2.map Event.handedOut).toList) []
    rcases pump_cases now s s.outboundQueue with ⟨_, _, -, -, -, done⟩ | ⟨_, t, _, p, -, -, found, -, done⟩ <;>
      rw [nextOutbound, done]
    · exact n.narrow (fun u none => none) rfl
    · refine n.narrow (fun u none => ?_) rfl
      rw [DenseMap.find?_insertOrAssign_ne _ _ fun same => by rw [same, found] at none; cases none]
      exact none
  | resetDeviceState => exact n.narrow (fun u none => none) rfl

end Notified

/-- A run that registers each transaction once keeps the window and notifies once. -/
theorem notified_run (config : Config) (ops : List Op) (once : RegisteredOnce (session.trace (.init config) ops)) :
    Window (session.exec (.init config) ops) (session.trace (.init config) ops) ∧
      Notified (session.exec (.init config) ops) (session.trace (.init config) ops) [] := by
  apply session.run_invariant (I := fun s log => Window s log ∧ Notified s log [])
    (fun _ _ => RegisteredOnce.left) _ _ ops once
  · refine ⟨Window.init config, List.nodup_nil, ?_, ?_⟩ <;> exact fun t member => by cases member
  · intro s h o ⟨w, n⟩ once
    exact ⟨w.step o once, n.step w o once⟩

/-- Under `RegisteredOnce` a transaction has one registration. -/
theorem RegisteredOnce.unique {log : List Event} (once : RegisteredOnce log) {r r' : Registration}
    (h : .registered r ∈ log) (h' : .registered r' ∈ log) (same : r.txId = r'.txId) : r = r' := by
  induction log with
  | nil => cases h
  | cons e log ih =>
    have later : ∀ x, .registered x ∈ log → x.txId ∈ registeredTxs log := by
      intro x member
      exact List.mem_filterMap.mpr ⟨_, member, rfl⟩
    rcases List.mem_cons.mp h with here | there
    · subst here
      have fresh := (List.nodup_cons.mp once).1
      rcases List.mem_cons.mp h' with here' | there'
      · exact (Event.registered.inj here').symm
      · exact absurd (same ▸ later r' there') fresh
    · rcases List.mem_cons.mp h' with here' | there'
      · subst here'
        have fresh := (List.nodup_cons.mp once).1
        exact absurd (same ▸ later r there) fresh
      · have tail : RegisteredOnce log := by
          rw [RegisteredOnce, ← List.singleton_append, registeredTxs_append] at once
          exact once.of_append_right
        exact ih tail there there'

/-- **No request vanishes.** In a run that registers each transaction at most once and in
which every response that finds a pending request has its response type, a request with
both callbacks leaves the map only in a step that invokes exactly one of them, by its
response or by its exhausted timeout; and no transaction is notified twice. -/
theorem leaves_notified (config : Config) (ops : List Op) (once : RegisteredOnce (session.trace (.init config) ops))
    (matching : session.Along Matches (.init config) ops) :
    (∀ pre o post, ops = pre ++ o :: post → ∀ r, .registered r ∈ session.trace (.init config) pre →
      r.onResponse = true → r.onError = true →
      let s := session.exec (.init config) pre
      (s.pendingByTx.find? r.txId).isSome → (session.step s o).1.pendingByTx.find? r.txId = none →
      (∃ bytes, o = .onResponse r.responseCmd r.txId bytes ∧
        callbacksFor r.txId (session.step s o).2 = [.response r.txId r.responseCmd bytes]) ∨
      ∃ now clock reentry p, o = .poll now clock reentry ∧ s.pendingByTx.find? r.txId = some p ∧ p.expires now = true ∧
        callbacksFor r.txId (session.step s o).2 = [.error r.txId .timeout]) ∧
    ∀ t, (callbacksFor t (session.trace (.init config) ops)).length ≤ 1 := by
  constructor
  · intro pre o post split r registered response error s pending gone
    obtain ⟨p, found⟩ := Option.isSome_iff_exists.mp pending
    have before : RegisteredOnce (session.trace (.init config) pre) := by
      rw [split, session.trace_append] at once
      exact once.left
    have fits : Matches s o := (split ▸ matching).at_split
    obtain ⟨r', registered', id, stored⟩ := pending_registered config pre r.txId p found
    have same : r' = r := before.unique registered' registered id
    subst same
    obtain ⟨-, -, cmd, -, onResponse, onError, -, -⟩ := Registration.mk.inj stored
    rcases step_leaves (notified_run config pre before).1 o fits found gone with
      ⟨bytes, answered, said⟩ | ⟨now, clock, reentry, polled, expired, said⟩
    · left
      refine ⟨bytes, by rw [answered, cmd], ?_⟩
      rw [said, onResponse, if_pos response, cmd]
    · right
      refine ⟨now, clock, reentry, p, polled, found, expired, ?_⟩
      rw [said, onError, if_pos error]
  · intro t
    have distinct := (notified_run config ops once).2.once
    rw [List.append_nil] at distinct
    rw [length_callbacksFor]
    exact List.nodup_iff_count_le_one.mp distinct t

/-- One request answered, another one out of retries. -/
theorem leaves_notified_twoRequests :
    let request (t : TransactionId) : Registration := ⟨t, 0x6103, 0x6104, [1, 2, 3], true, true, 100, 0⟩
    let pre : List Op := [.registerPending 0 (request 1), .registerPending 0 (request 2), .nextOutbound 5,
      .onResponse 0x6104 1 [9], .nextOutbound 6]
    let last : Op := .poll 106 (fun _ => 106) (fun _ => [])
    let s := session.exec (.init {}) pre
    ((∃ bytes, last = .onResponse 0x6104 2 bytes ∧
        callbacksFor 2 (session.step s last).2 = [.response 2 0x6104 bytes]) ∨
      ∃ now clock reentry p, last = .poll now clock reentry ∧ s.pendingByTx.find? 2 = some p ∧ p.expires now = true ∧
        callbacksFor 2 (session.step s last).2 = [.error 2 .timeout]) ∧
      (callbacksFor 1 (session.trace (.init {}) (pre ++ [last]))).length ≤ 1 := by
  intro request pre last s
  have once : RegisteredOnce (session.trace (.init {}) (pre ++ [last])) := by
    show (registeredTxs _).Nodup
    decide
  have matching : session.Along Matches (.init {}) (pre ++ [last]) := by
    simp only [pre, last, List.cons_append, List.nil_append, Machine.Along, Matches, true_and, and_true]
    intro _ p found
    have fits : ((session.exec (.init {}) (pre.take 3)).pendingByTx.find? 1).map (·.responseCmd) = some 0x6104 := by
      decide +kernel
    change (session.exec (.init {}) (pre.take 3)).pendingByTx.find? 1 = some p at found
    rw [found] at fits
    exact Option.some.inj fits
  obtain ⟨leaves, atMostOnce⟩ := leaves_notified {} (pre ++ [last]) once matching
  constructor
  · have pending : (s.pendingByTx.find? 2).isSome = true := by decide +kernel
    have gone : (session.step s last).1.pendingByTx.find? 2 = none := by decide +kernel
    have registered : .registered (request 2) ∈ session.trace (.init {}) pre := by decide +kernel
    have notified := leaves pre last [] rfl (request 2) registered rfl rfl pending gone
    exact notified
  · exact atMostOnce 1

/-- **A response of another type drops a request.** The request is registered once, with
both callbacks, and is in flight; a stray response to its transaction takes it out of the
map and invokes neither. -/
theorem stray_response_drops_request :
    let request : Registration := ⟨1, 0x6103, 0x6104, [1, 2, 3], true, true, 200000, 3⟩
    let pre : List Op := [.registerPending 0 request, .nextOutbound 5]
    let stray : Op := .onResponse 0x6106 1 [9]
    let s := session.exec (.init {}) pre
    RegisteredOnce (session.trace (.init {}) (pre ++ [stray])) ∧ (s.pendingByTx.find? 1).isSome ∧
      (session.step s stray).1.pendingByTx.find? 1 = none ∧
      callbacksFor 1 (session.trace (.init {}) (pre ++ [stray])) = [] := by
  intro request pre stray s
  have once : RegisteredOnce (session.trace (.init {}) (pre ++ [stray])) := by
    show (registeredTxs _).Nodup
    decide
  have pending : (s.pendingByTx.find? 1).isSome := by decide +kernel
  have gone : (session.step s stray).1.pendingByTx.find? 1 = none := by decide +kernel
  exact ⟨once, pending, gone, by decide +kernel⟩

end FloridUsb.Session
