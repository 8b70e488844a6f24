import FloridUsb.Stack.Storage

/-!
# Timeouts of requests that were offered

The session counts a transmission when it hands an entry out, before the queue has taken the
frame (`enqueueCalls_cost`). As long as the queue takes every frame of the session (`Accepts`), a
timeout comes after one frame for the first transmission and one for each retry (`Counted`). A
refused frame is counted all the same, so a request can time out that was never enqueued.
-/

namespace FloridUsb.Stack
set_option autoImplicit false

open Lib Rpl Session

section Offered

variable {Ts : PacketTypes}

def StackEvent.registers (t : TransactionId) : StackEvent → Bool
  | .session (.registered r) => r.txId = t
  | _ => false

/-- The frames with a content that were put into the queue. -/
def placed (content : Frame) (log : List StackEvent) : Nat :=
  log.countP fun e => match e with
    | .enqueued c _ => decide (c = content)
    | _ => false

/-- Every entry is pending under its own number. -/
def Named (s : ReliableSession) : Prop := ∀ t p, s.pendingByTx.find? t = some p → p.txId = t

def contentOf (e : RetransmitEntry) : Frame := ⟨e.requestCmd, e.requestBytes⟩

/-- The queue takes the entry: it has room or holds telemetry, and the entry is a packet whose frame fits. -/
def Accepts (s : ProtocolStack Ts) (e : RetransmitEntry) : Prop :=
  ¬ Crowded s.tx.queue ∧
    ∃ packet : Packet Ts, packet.content = contentOf e ∧ packet.traits.frameSize ≤ MAX_FRAME_SIZE

/-- `enqueue_pending_frame` returns true. -/
def Enqueues (s : ProtocolStack Ts) (e : RetransmitEntry) : Prop :=
  ∃ entry, (s.enqueueEntry e).2 = [.enqueued (contentOf e) entry]

theorem enqueues_iff (s : ProtocolStack Ts) (e : RetransmitEntry) : Enqueues s e ↔ Accepts s e :=
  enqueueEntry_enqueues_iff

/-- The registration of a pending transaction, with what has been logged after it. -/
structure LastRegistered (h : List StackEvent) (t : TransactionId) (r : Registration)
    (after : List StackEvent) : Prop where
  split : ∃ before, h = before ++ .session (.registered r) :: after
  id : r.txId = t
  last : ∀ e ∈ after, e.registers t = false

theorem LastRegistered.extend {h after ev : List StackEvent} {t : TransactionId} {r : Registration}
    (registered : LastRegistered h t r after) (quiet : ∀ e ∈ ev, e.registers t = false) :
    LastRegistered (h ++ ev) t r (after ++ ev) := by
  obtain ⟨before, split⟩ := registered.split
  constructor
  · exact ⟨before, by rw [split, List.append_assoc, List.cons_append]⟩
  · exact registered.id
  · intro e member
    rcases List.mem_append.mp member with old | new
    · exact registered.last e old
    · exact quiet e new

@[simp] theorem placed_append (content : Frame) (a b : List StackEvent) :
    placed content (a ++ b) = placed content a + placed content b :=
  List.countP_append

/-- A request in flight with `n` retries has been enqueued `n + 1` times, but for what is still to be. -/
def InAccount (h : List StackEvent) (todo : List RetransmitEntry) (t : TransactionId) (p : PendingEntry) : Prop :=
  ∃ r after, LastRegistered h t r after ∧ p.request = r.stored ∧ (p.inflight = false → p.retryCount = 0) ∧
    (p.inflight = true → 1 + p.retryCount.toNat ≤ placed (contentOf r.entry) after + todo.count r.entry)

/-- Every pending request is in account. -/
def Counted (s : ProtocolStack Ts) (h : List StackEvent) (todo : List RetransmitEntry) : Prop :=
  ∀ t p, s.session.pendingByTx.find? t = some p → InAccount h todo t p

theorem InAccount.id {h : List StackEvent} {todo : List RetransmitEntry} {t : TransactionId} {p : PendingEntry}
    (account : InAccount h todo t p) : p.txId = t := by
  obtain ⟨r, after, registered, request, -⟩ := account
  exact (congrArg Registration.txId request).trans registered.id

/-- More events, more to be sent, another deadline. -/
theorem InAccount.mono {h : List StackEvent} {todo todo' : List RetransmitEntry} {t : TransactionId}
    {p q : PendingEntry}
    (account : InAccount h todo t p) {ev : List StackEvent} (quiet : ∀ e ∈ ev, e.registers t = false)
    (more : ∀ e, todo.count e ≤ todo'.count e) (request : q.request = p.request) (flag : q.inflight = p.inflight)
    (count : q.retryCount = p.retryCount) : InAccount (h ++ ev) todo' t q := by
  obtain ⟨r, after, registered, stored, waiting, flying⟩ := account
  refine ⟨r, after ++ ev, registered.extend quiet, request.trans stored, ?_, ?_⟩
  · rw [flag, count]
    exact waiting
  · rw [flag, count, placed_append]
    intro inflight
    have := flying inflight
    have := more r.entry
    omega

namespace Counted

variable {s s' : ProtocolStack Ts} {h ev : List StackEvent} {todo todo' : List RetransmitEntry}

/-- Nothing has been registered, and every entry is one from before. -/
theorem carry (counted : Counted s h todo) (quiet : ∀ t, ∀ e ∈ ev, e.registers t = false)
    (from_ : ∀ t p, s'.session.pendingByTx.find? t = some p → ∃ q, s.session.pendingByTx.find? t = some q ∧
      p.request = q.request ∧ p.inflight = q.inflight ∧ p.retryCount = q.retryCount) : Counted s' (h ++ ev) todo := by
  intro t p found
  obtain ⟨q, before, request, flag, count⟩ := from_ t p found
  exact (counted t q before).mono (quiet t) (fun _ => Nat.le_refl _) request flag count

theorem extend (counted : Counted s h todo) (quiet : ∀ t, ∀ e ∈ ev, e.registers t = false)
    (same : s'.session.pendingByTx = s.session.pendingByTx) : Counted s' (h ++ ev) todo :=
  counted.carry quiet fun _ p found => ⟨p, same ▸ found, rfl, rfl, rfl⟩

theorem send (counted : Counted s h todo) (now : Time) (args : SendArgs Ts) :
    Counted (s.send now args).1 (h ++ (s.send now args).2) todo := by
  intro t p found
  simp only [ProtocolStack.send, ReliableSession.takeTxId, ReliableSession.registerPending,
    DenseMap.find?_insertOrAssign] at found ⊢
  split at found
  · rename_i here
    cases found
    refine ⟨args.registration s.session.nextTxId, [], ⟨?_, here.symm, ?_⟩, rfl, fun _ => rfl, fun flag => by cases flag⟩
    · exact ⟨h ++ [.offered ⟨args.request.traits.cmd,
        (args.registration s.session.nextTxId).requestBytes⟩], by simp; rfl⟩
    · intro e member
      cases member
  · rename_i other
    apply (counted t p found).mono _ (fun _ => Nat.le_refl _) rfl rfl rfl
    intro e member
    rcases List.mem_cons.mp member with rfl | member
    · rfl
    · rw [List.mem_singleton.mp member]
      exact decide_eq_false fun same => other same.symm

/-- The queue takes an entry. -/
theorem enqueue {e : RetransmitEntry} (counted : Counted s h (e :: todo)) (accepts : Accepts s e) :
    Counted (s.enqueueEntry e).1 (h ++ (s.enqueueEntry e).2) todo := by
  obtain ⟨entry, done⟩ := (enqueues_iff s e).mpr accepts
  rw [done]
  intro t p found
  obtain ⟨r, after, registered, request, waiting, flying⟩ := counted t p found
  refine ⟨r, after ++ [.enqueued (contentOf e) entry], registered.extend (by simp [StackEvent.registers]),
    request, waiting, ?_⟩
  intro inflight
  have before := flying inflight
  rw [List.count_cons] at before
  by_cases same : e = r.entry
  · have one : placed (contentOf r.entry) [.enqueued (contentOf e) entry] = 1 := by simp [placed, same]
    rw [placed_append, one]
    simp only [same, beq_self_eq_true, if_true] at before
    omega
  · rw [if_neg (by simpa using same)] at before
    rw [placed_append]
    omega

theorem handOut (counted : Counted s h []) (now : Time) :
    Counted ({ s with session := (s.session.nextOutbound now).1 } : ProtocolStack Ts)
      (h ++ ((s.session.nextOutbound now).2.map fun e => .session (.handedOut e)).toList)
        (s.session.nextOutbound now).2.toList := by
  have quiet : ∀ t, ∀ e ∈ ((s.session.nextOutbound now).2.map
      fun e => StackEvent.session (.handedOut e)).toList, e.registers t = false := by
    intro t e member
    obtain ⟨_, -, rfl⟩ := Option.map_eq_some_iff.mp (Option.mem_toList.mp member)
    rfl
  intro t p found
  rcases ReliableSession.pump_cases now s.session s.session.outboundQueue with
    ⟨_, _, -, -, -, done⟩ | ⟨_, u, _, q, -, -, there, -, done⟩
  · have same : (s.session.nextOutbound now).1.pendingByTx = s.session.pendingByTx := by
      rw [ReliableSession.nextOutbound, done]
    exact (counted t p (same ▸ found)).mono (quiet t) (fun _ => Nat.zero_le _) rfl rfl rfl
  · have out : (s.session.nextOutbound now).2 = some q.toRetransmit := by rw [ReliableSession.nextOutbound, done]
    have after : (s.session.nextOutbound now).1.pendingByTx =
        s.session.pendingByTx.insertOrAssign u { q with inflight := true, deadline := now + q.timeout } := by
      rw [ReliableSession.nextOutbound, done]
    change (s.session.nextOutbound now).1.pendingByTx.find? t = some p at found
    rw [after, DenseMap.find?_insertOrAssign] at found
    split at found
    · rename_i here
      cases found
      obtain ⟨r, since, registered, request, waiting, flying⟩ := counted u q there
      rw [here]
      refine ⟨r, _, registered.extend (quiet u), request, (fun flag => by cases flag), fun _ => ?_⟩
      rw [out]
      show 1 + q.retryCount.toNat ≤ _ + List.count r.entry [q.toRetransmit]
      rw [q.entry_eq request, List.count_singleton_self, placed_append]
      cases flag : q.inflight with
      | false =>
        rw [waiting flag]
        simp
      | true =>
        have := flying flag
        rw [List.count_nil] at this
        omega
    · exact (counted t p found).mono (quiet t) (fun _ => Nat.zero_le _) rfl rfl rfl

theorem pollLoop (counted : Counted s h []) (now : Time) (clock : TransactionId → Time) :
    Counted ({ s with session := (s.session.pollLoop now clock).1 } : ProtocolStack Ts) h
      (s.session.pollLoop now clock).2.retries := by
  intro t p found
  change (s.session.pollLoop now clock).1.pendingByTx.find? t = some p at found
  rw [ReliableSession.pollLoop_find] at found
  obtain ⟨q, before, kept⟩ := Option.bind_eq_some_iff.mp found
  have account := counted t q before
  rcases ReliableSession.pollKeeps_cases now clock (t, q) with ⟨-, keeps, -⟩ | ⟨-, keeps, -⟩ |
    ⟨due, lives, keeps, -⟩ <;>
    rw [keeps] at kept <;> cases kept
  · have same : InAccount (h ++ []) (s.session.pollLoop now clock).2.retries t q :=
      account.mono (fun e member => by cases member) (fun _ => Nat.zero_le _) rfl rfl rfl
    rwa [List.append_nil] at same
  · obtain ⟨r, after, registered, request, waiting, flying⟩ := account
    have inflight : q.inflight = true := (PendingEntry.isDue_iff.mp due).1
    have retried : q.toRetransmit ∈ (s.session.pollLoop now clock).2.retries :=
      ReliableSession.mem_retries_iff.mpr ⟨t, q, before, due, lives, rfl⟩
    refine ⟨r, after, registered, request, fun flag => ?_, fun _ => ?_⟩
    · change q.inflight = false at flag
      rw [inflight] at flag
      cases flag
    · have once := List.count_pos_iff.mpr retried
      rw [q.entry_eq request] at once
      have enough := flying inflight
      rw [List.count_nil] at enough
      have counted : (q.retryCount + 1).toNat = q.retryCount.toNat + 1 :=
        PendingEntry.retryCount_succ (PendingEntry.retryCount_lt due lives)
      show 1 + (q.retryCount + 1).toNat ≤ _
      omega

theorem keeps : KeepsParts (fun _ : Act Ts => True) (fun _ => True) Accepts (fun s h _ todo => Counted s h todo) where
  closed _ _ _ := trivial
  note s h due todo e isNote counted := by
    apply counted.extend
    · intro t x member
      rw [List.mem_singleton.mp member]
      cases e with
      | offered content | handler handler cmd txId data => rfl
      | session e | enqueued content entry | replayed cmd txId entry | accepted entry => cases isNote
    · rfl
  handlers s h due todo handlers counted := counted
  setNextTxId s h due todo t counted := counted
  send s h due todo now args _ counted _ := counted.send now args
  enqueuePacket s h due todo packet priority _ _ counted := by
    apply counted.extend
    · intro t x member
      obtain ⟨entry, -, rfl⟩ := Option.map_eq_some_iff.mp (Option.mem_toList.mp member)
      rfl
    · rfl
  cache s h due todo cmd txId response entry seq _ _ _ _ _ counted := counted
  onAck s h now txId counted := by
    rw [← List.append_nil h]
    apply counted.carry
    · intro t e member
      cases member
    · intro t p found
      change (s.session.onAck now txId).pendingByTx.find? t = some p at found
      rcases s.session.onAck_eq now txId with same | ⟨q, hq, -, done⟩
      · exact ⟨p, same ▸ found, rfl, rfl, rfl⟩
      · rw [done, DenseMap.find?_insertOrAssign] at found
        split at found
        · rename_i here
          cases found
          exact ⟨q, here ▸ hq, rfl, rfl, rfl⟩
        · exact ⟨p, found, rfl, rfl, rfl⟩
  onResponse s h cmd txId data counted := by
    apply counted.carry
    · intro t x member
      obtain ⟨e, logged, rfl⟩ := List.mem_map.mp member
      obtain ⟨_, -, -, rfl⟩ := ReliableSession.mem_onResponse logged
      rfl
    · intro t p found
      change (s.session.onResponse cmd txId data).1.pendingByTx.find? t = some p at found
      rcases s.session.onResponse_cases cmd txId data with ⟨ring, done, -⟩ | ⟨ring, q, -, -, done⟩ <;>
        rw [done] at found
      · exact ⟨p, found, rfl, rfl, rfl⟩
      · rw [DenseMap.find?_erase] at found
        split at found
        · cases found
        · exact ⟨p, found, rfl, rfl, rfl⟩
  onRequest s h cmd txId counted := by
    apply counted.extend
    · intro t x member
      rw [List.mem_singleton.mp member]
      rfl
    · show (s.session.onRequest cmd txId).1.pendingByTx = _
      rw [s.session.onRequest_eq cmd txId]
  replay s h cmd txId cached _ counted := by
    apply counted.extend
    · intro t x member
      obtain ⟨entry, -, rfl⟩ := Option.map_eq_some_iff.mp (Option.mem_toList.mp member)
      rfl
    · rfl
  handOut s h now counted := counted.handOut now
  enqueue s h e todo accepts counted := counted.enqueue accepts
  pollLoop s h now clock counted := counted.pollLoop now clock
  error s h txId due todo counted := by
    apply counted.extend
    · intro t x member
      rw [List.mem_singleton.mp member]
      rfl
    · rfl
  skip s h txId due todo counted := counted
  retransmitted s h todo counted := by
    apply counted.extend
    · intro t x member
      obtain ⟨e, -, rfl⟩ := List.mem_map.mp member
      rfl
    · rfl
  drainTx s h sendFrame counted := by
    apply counted.extend
    · intro t x member
      obtain ⟨entry, -, rfl⟩ := Option.map_eq_some_iff.mp (Option.mem_toList.mp member)
      rfl
    · rfl

theorem named (counted : Counted s h todo) : Named s.session := fun t p found => (counted t p found).id

theorem run (config : Config) (ops : List (StackOp Ts))
    (accepts : (stack Ts).Along (fun s o => o.Offers Accepts s) (.init Ts config) ops) :
    Counted ((stack Ts).exec (.init Ts config) ops) ((stack Ts).trace (.init Ts config) ops) [] := by
  have start : Counted (ProtocolStack.init Ts config) [] [] := by
    intro t p found
    cases found
  exact keeps.whole.run start ops (fun o _ => o.meets_true) accepts trivial

end Counted

/-! ### Timeouts -/

theorem act_no_timeout (s : ProtocolStack Ts) (a : Act Ts) (t : TransactionId) :
    .session (.error t .timeout) ∉ (s.act a).2 := by
  intro member
  cases a with
  | registerHandler cmd handler | setNextTxId u => cases member
  | send now args => simp [ProtocolStack.act, ProtocolStack.send] at member
  | sendResponseAndCache cmd txId response =>
    change _ ∈ (s.sendResponseAndCache cmd txId response).2 at member
    rw [(sendResponseAndCache_parts s cmd txId response).1] at member
    simp [ProtocolStack.transmit] at member
  | broadcast packet => simp [ProtocolStack.act, ProtocolStack.broadcast, ProtocolStack.transmit] at member

/-- The error callbacks that an operation invokes are those that the loop of `poll` has collected. -/
theorem mem_runErrorCallbacks {callbacks : TransactionId → List (Act Ts)} {s : ProtocolStack Ts}
    {due : List (TransactionId × Bool)} {t : TransactionId}
    (member : .session (.error t .timeout) ∈ (s.runErrorCallbacks callbacks due).2) : (t, true) ∈ due := by
  have quietActs : ∀ (s : ProtocolStack Ts) (acts : List (Act Ts)),
      .session (.error t .timeout) ∉ (s.runActs acts).2 := by
    intro s acts
    induction acts generalizing s with
    | nil => exact List.not_mem_nil
    | cons a acts ih =>
      intro member
      rcases List.mem_append.mp member with here | later
      · exact act_no_timeout s a t here
      · exact ih _ later
  induction due generalizing s with
  | nil => cases member
  | cons cb due ih =>
    obtain ⟨u, present⟩ := cb
    cases present with
    | false => exact List.mem_cons_of_mem _ (ih member)
    | true =>
      rcases List.mem_cons.mp member with here | member
      · cases here
        exact List.mem_cons_self
      rcases List.mem_append.mp member with acted | later
      · exact absurd acted (quietActs _ _)
      · exact List.mem_cons_of_mem _ (ih later)

theorem packet_no_timeout (s : ProtocolStack Ts) (now : Time) (cmd : UInt16) (data : List UInt8) (t : TransactionId) :
    .session (.error t .timeout) ∉ (s.handlePacketInternal now cmd data).2 := by
  have invoked : ∀ (s : ProtocolStack Ts) (txId : TransactionId),
      .session (.error t .timeout) ∉ s.invoke cmd txId data := by
    intro s txId member
    unfold ProtocolStack.invoke at member
    split at member
    · cases List.mem_singleton.mp member
    · cases member
  unfold ProtocolStack.handlePacketInternal
  split
  · unfold ProtocolStack.handleAckPacket
    split <;> exact List.not_mem_nil
  split
  · unfold ProtocolStack.handleRequestPacket
    dsimp only
    split
    · exact invoked s _
    split
    · split
      · exact invoked s _
      · exact List.not_mem_nil
    split
    · split
      · split <;> simp [ProtocolStack.transmit]
      · simp [ProtocolStack.transmit]
    · simp [ProtocolStack.transmit, invoked s]
  · unfold ProtocolStack.handleResponsePacket
    dsimp only
    split
    · exact List.not_mem_nil
    · intro member
      obtain ⟨e, logged, same⟩ := List.mem_map.mp member
      obtain ⟨_, -, -, rfl⟩ := ReliableSession.mem_onResponse logged
      cases same

theorem enqueueEntry_no_session (s : ProtocolStack Ts) (e : RetransmitEntry) (x : Session.Event) :
    .session x ∉ (s.enqueueEntry e).2 := by
  intro member
  obtain ⟨_, -, same⟩ := Option.map_eq_some_iff.mp (Option.mem_toList.mp member)
  cases same

theorem enqueueAll_no_timeout (s : ProtocolStack Ts) (entries : List RetransmitEntry) (t : TransactionId) :
    .session (.error t .timeout) ∉ (s.enqueueAll entries).2 := by
  induction entries generalizing s with
  | nil => exact List.not_mem_nil
  | cons e entries ih =>
    intro member
    rcases List.mem_append.mp member with here | later
    · exact enqueueEntry_no_session s e _ here
    · exact ih _ later

theorem outboundLoop_no_timeout (clock : Nat → Time) (fuel : Nat) (s : ProtocolStack Ts) (t : TransactionId) :
    .session (.error t .timeout) ∉ (s.outboundLoop clock fuel).2 := by
  induction fuel generalizing s with
  | zero => exact List.not_mem_nil
  | succ fuel ih =>
    unfold ProtocolStack.outboundLoop
    split
    · exact List.not_mem_nil
    · dsimp only
      split
      · simp
      · simp [enqueueEntry_no_session, ih]

/-- A timeout is that of a pending entry that is out of retries. -/
theorem error_expired {s : ProtocolStack Ts} (named : Named s.session)
    {o : StackOp Ts} {t : TransactionId} (member : .session (.error t .timeout) ∈ ((stack Ts).step s o).2) :
    ∃ now p, s.session.pendingByTx.find? t = some p ∧ p.expires now = true := by
  cases o with
  | act a => exact absurd member (act_no_timeout s a t)
  | packet now cmd data => exact absurd member (packet_no_timeout s now cmd data t)
  | sessionOutbound clock => exact absurd member (outboundLoop_no_timeout clock _ s t)
  | drainTx sendFrame =>
    obtain ⟨_, -, same⟩ := Option.map_eq_some_iff.mp (Option.mem_toList.mp member)
    cases same
  | sessionRetries now clock callbacks =>
    rcases List.mem_append.mp member with called | later
    · obtain ⟨p, found, expired⟩ := ReliableSession.mem_callbacks named (mem_runErrorCallbacks called)
      exact ⟨now, p, found, expired⟩
    rcases List.mem_append.mp later with retransmitted | enqueued
    · obtain ⟨_, -, same⟩ := List.mem_map.mp retransmitted
      cases same
    · exact absurd enqueued (enqueueAll_no_timeout _ _ t)

/-- The request timed out after it was enqueued once, and once more for each retry. -/
def TimeoutsOffered (Ts : PacketTypes) (config : Config) (ops : List (StackOp Ts)) : Prop :=
  ∀ pre o post, ops = pre ++ o :: post → ∀ t,
    .session (.error t .timeout) ∈ ((stack Ts).step ((stack Ts).exec (.init Ts config) pre) o).2 →
    ∃ r after, LastRegistered ((stack Ts).trace (.init Ts config) pre) t r after ∧
      1 + r.maxRetries.toNat ≤ placed (contentOf r.entry) after

theorem timeouts_offered {config : Config} {ops : List (StackOp Ts)}
    (accepts : (stack Ts).Along (fun s o => o.Offers Accepts s) (.init Ts config) ops) :
    TimeoutsOffered Ts config ops := by
  intro pre o post split t member
  rw [split, (stack Ts).along_append] at accepts
  have counted := Counted.run config pre accepts.1
  obtain ⟨now, p, found, expired⟩ := error_expired counted.named member
  obtain ⟨r, after, registered, request, -, flying⟩ := counted t p found
  have facts := PendingEntry.spent_of_expires expired
  have max : p.maxRetries = r.maxRetries := congrArg Registration.maxRetries request
  have enough := flying facts.1.1
  have spent := UInt8.le_iff_toNat_le.mp facts.2
  rw [max] at spent
  rw [List.count_nil] at enough
  exact ⟨r, after, registered, by omega⟩

/-! ### What a call costs -/

/-- A call of `enqueue_pending_frame`: the entry, the stack it finds, and the session before and
after the step (`next_outbound`, the loop of `poll`) that has produced the entry. -/
structure EnqueueCall (Ts : PacketTypes) where
  before : ReliableSession
  after : ReliableSession
  stack : ProtocolStack Ts
  entry : RetransmitEntry

def ProtocolStack.outboundCalls (clock : Nat → Time) : Nat → ProtocolStack Ts → List (EnqueueCall Ts)
  | 0, _ => []
  | fuel + 1, s =>
    match s.session.nextOutbound (clock fuel) with
    | (_, none) => []
    | (session, some e) =>
      let handed : ProtocolStack Ts := { s with session := session }
      ⟨s.session, session, handed, e⟩ ::
        if (handed.enqueueEntry e).2.isEmpty then [] else outboundCalls clock fuel (handed.enqueueEntry e).1

def ProtocolStack.retryCalls (before after : ReliableSession) (s : ProtocolStack Ts) :
    List RetransmitEntry → List (EnqueueCall Ts)
  | [] => []
  | e :: entries => ⟨before, after, s, e⟩ :: retryCalls before after (s.enqueueEntry e).1 entries

/-- The calls of `enqueue_pending_frame` in an operation. -/
def StackOp.enqueueCalls (s : ProtocolStack Ts) : StackOp Ts → List (EnqueueCall Ts)
  | .sessionOutbound clock => s.outboundCalls clock (s.session.outboundQueue.length + 1)
  | .sessionRetries now clock callbacks =>
    let loop := s.session.pollLoop now clock
    let called := ProtocolStack.runErrorCallbacks callbacks { s with session := loop.1 } loop.2.callbacks
    called.1.retryCalls s.session loop.1 loop.2.retries
  | .act _ | .packet _ _ _ | .drainTx _ => []

/-- The transmissions of a request that are still to come: one for each place in the outbound
queue, and the retries that are left. -/
def transmissionsLeft (s : ReliableSession) (t : TransactionId) : Nat :=
  s.outboundQueue.count t + ((s.pendingByTx.find? t).map fun p => p.maxRetries.toNat - p.retryCount.toNat).getD 0

/-- A call that returns false has used up no transmission of its request. -/
def RefusalsFree (s : ProtocolStack Ts) (o : StackOp Ts) : Prop :=
  ∀ c ∈ o.enqueueCalls s, ¬ Enqueues c.stack c.entry →
    transmissionsLeft c.before c.entry.txId ≤ transmissionsLeft c.after c.entry.txId

/-- The queue takes the entry of every call. -/
def TakesAll (s : ProtocolStack Ts) (o : StackOp Ts) : Prop := ∀ c ∈ o.enqueueCalls s, Accepts c.stack c.entry

/-- To be handed out costs a request its place in the outbound queue. -/
theorem nextOutbound_costs {s : ReliableSession} (named : Named s)
    {now : Time} {e : RetransmitEntry} (out : (s.nextOutbound now).2 = some e) :
    transmissionsLeft (s.nextOutbound now).1 e.txId < transmissionsLeft s e.txId := by
  rcases s.pump_cases now s.outboundQueue with
    ⟨_, _, -, -, -, done⟩ | ⟨stale, u, rest, p, queue, -, found, -, done⟩ <;>
    rw [ReliableSession.nextOutbound, done] at out <;> cases out
  have id : p.toRetransmit.txId = u := named u p found
  rw [ReliableSession.nextOutbound, done, id]
  simp only [transmissionsLeft, DenseMap.find?_insertOrAssign_self, found, queue, List.count_append,
    List.count_cons_self, Option.map_some, Option.getD_some]
  omega

/-- To be returned by `poll` costs a request one of its retries. -/
theorem pollLoop_costs {s : ReliableSession} (named : Named s)
    {now : Time} {clock : TransactionId → Time} {e : RetransmitEntry} (retry : e ∈ (s.pollLoop now clock).2.retries) :
    transmissionsLeft (s.pollLoop now clock).1 e.txId < transmissionsLeft s e.txId := by
  obtain ⟨t, p, found, due, lives, rfl⟩ := ReliableSession.mem_retries_iff.mp retry
  have id : p.toRetransmit.txId = t := named t p found
  have keeps : ReliableSession.pollKeeps now clock (t, p) = _ := ReliableSession.pollKeeps_retry due lives
  have left : p.retryCount.toNat < p.maxRetries.toNat := PendingEntry.retryCount_lt due lives
  have counted : (p.retryCount + 1).toNat = p.retryCount.toNat + 1 := PendingEntry.retryCount_succ left
  rw [id, transmissionsLeft, transmissionsLeft, ReliableSession.pollLoop_find, found, Option.bind_some, keeps]
  show s.outboundQueue.count t + (p.maxRetries.toNat - (p.retryCount + 1).toNat) <
    s.outboundQueue.count t + (p.maxRetries.toNat - p.retryCount.toNat)
  omega

theorem nextOutbound_named {s : ReliableSession} (named : Named s) (now : Time) : Named (s.nextOutbound now).1 := by
  intro t p found
  rcases s.step_pending (.nextOutbound now) t p found with ⟨q, before, same⟩ | ⟨r, registered, -⟩
  · exact (congrArg Registration.txId same).trans (named t q before)
  · obtain ⟨_, -, other⟩ := Option.map_eq_some_iff.mp (Option.mem_toList.mp registered)
    cases other

theorem outboundCalls_cost {s : ProtocolStack Ts} (named : Named s.session) (clock : Nat → Time) (fuel : Nat) :
    ∀ c ∈ s.outboundCalls clock fuel,
      transmissionsLeft c.after c.entry.txId < transmissionsLeft c.before c.entry.txId := by
  induction fuel generalizing s with
  | zero => exact List.forall_mem_nil _
  | succ fuel ih =>
    intro c member
    have costs : ∀ e, (s.session.nextOutbound (clock fuel)).2 = some e → _ := fun e => nextOutbound_costs named
    have still := nextOutbound_named named (clock fuel)
    unfold ProtocolStack.outboundCalls at member
    generalize s.session.nextOutbound (clock fuel) = r at costs still member
    obtain ⟨session, _ | e⟩ := r
    · cases member
    rcases List.mem_cons.mp member with rfl | later
    · exact costs e rfl
    · split at later
      · cases later
      · exact ih still c later

theorem mem_retryCalls {before after : ReliableSession} {s : ProtocolStack Ts} {entries : List RetransmitEntry}
    {c : EnqueueCall Ts} (member : c ∈ s.retryCalls before after entries) :
    c.before = before ∧ c.after = after ∧ c.entry ∈ entries := by
  induction entries generalizing s with
  | nil => cases member
  | cons e entries ih =>
    rcases List.mem_cons.mp member with rfl | later
    · exact ⟨rfl, rfl, List.mem_cons_self⟩
    · obtain ⟨same, same', there⟩ := ih later
      exact ⟨same, same', List.mem_cons_of_mem _ there⟩

/-- Every call costs its request a transmission. -/
theorem enqueueCalls_cost {s : ProtocolStack Ts} (named : Named s.session)
    (o : StackOp Ts) : ∀ c ∈ o.enqueueCalls s,
      transmissionsLeft c.after c.entry.txId < transmissionsLeft c.before c.entry.txId := by
  cases o with
  | act a | packet now cmd data | drainTx sendFrame => exact List.forall_mem_nil _
  | sessionOutbound clock => exact outboundCalls_cost named clock _
  | sessionRetries now clock callbacks =>
    intro c member
    obtain ⟨before, after, retry⟩ := mem_retryCalls member
    rw [before, after]
    exact pollLoop_costs named retry

section Calls

variable {E : ProtocolStack Ts → RetransmitEntry → Prop}

theorem outboundMeets_iff (s : ProtocolStack Ts) (clock : Nat → Time) (fuel : Nat) :
    s.OutboundMeets E clock fuel ↔ ∀ c ∈ s.outboundCalls clock fuel, E c.stack c.entry := by
  induction fuel generalizing s with
  | zero => exact ⟨fun _ => List.forall_mem_nil _, fun _ => trivial⟩
  | succ fuel ih =>
    unfold ProtocolStack.OutboundMeets ProtocolStack.outboundCalls
    generalize s.session.nextOutbound (clock fuel) = r
    obtain ⟨session, _ | e⟩ := r
    · exact ⟨fun _ => List.forall_mem_nil _, fun _ => trivial⟩
    rw [List.forall_mem_cons]
    refine and_congr Iff.rfl ?_
    cases (ProtocolStack.enqueueEntry { s with session := session } e).2.isEmpty with
    | true => simp
    | false => simpa using ih _

theorem allMeet_iff (before after : ReliableSession) (s : ProtocolStack Ts) (entries : List RetransmitEntry) :
    s.AllMeet E entries ↔ ∀ c ∈ s.retryCalls before after entries, E c.stack c.entry := by
  induction entries generalizing s with
  | nil => exact ⟨fun _ => List.forall_mem_nil _, fun _ => trivial⟩
  | cons e entries ih =>
    rw [ProtocolStack.retryCalls, List.forall_mem_cons]
    exact and_congr Iff.rfl (ih _)

theorem offers_iff (s : ProtocolStack Ts) (o : StackOp Ts) :
    o.Offers E s ↔ ∀ c ∈ o.enqueueCalls s, E c.stack c.entry := by
  cases o with
  | act a | packet now cmd data | drainTx sendFrame => exact ⟨fun _ => List.forall_mem_nil _, fun _ => trivial⟩
  | sessionOutbound clock => exact outboundMeets_iff s clock _
  | sessionRetries now clock callbacks => exact allMeet_iff _ _ _ _

end Calls

/-- **Timeouts of requests that were offered.** In a run a call of `enqueue_pending_frame` that
returns false uses up no transmission of its request, and every timeout comes after
`1 + max_retries` frames of the request have been enqueued since its registration, if and only if
the queue takes the entry of every call. -/
theorem timeouts_offered_iff (config : Config) (ops : List (StackOp Ts)) :
    ((stack Ts).Along RefusalsFree (.init Ts config) ops ∧ TimeoutsOffered Ts config ops) ↔
      (stack Ts).Along TakesAll (.init Ts config) ops := by
  have same : (fun (s : ProtocolStack Ts) o => o.Offers Accepts s) = TakesAll := by
    funext s o
    exact propext (offers_iff s o)
  constructor
  · rintro ⟨free, -⟩
    induction ops using List.reverseRecOn with
    | nil => trivial
    | append_singleton ops o ih =>
      rw [(stack Ts).along_append] at free ⊢
      have before := ih free.1
      refine ⟨before, fun c member => ?_, trivial⟩
      -- a refusal would be free, but no call is
      have counted := Counted.run config ops (same ▸ before)
      have costs := enqueueCalls_cost counted.named o c member
      apply (enqueues_iff _ _).mp
      by_contra refused
      exact absurd (free.2.1 c member refused) (Nat.not_le.mpr costs)
  · intro takes
    constructor
    · rw [(stack Ts).along_iff_at_split] at takes ⊢
      intro pre o post split c member refused
      exact absurd ((enqueues_iff _ _).mpr (takes pre o post split c member)) refused
    · exact timeouts_offered (same ▸ takes)

end Offered

/-- **A timeout of a request that was never offered.** The queue is full of 16 frames that nothing
drains; the request is handed out, refused, and given up. -/
theorem timeout_never_offered :
    let ack : Packet Arm.receiveSerial := ackOf Arm.receiveSerial 0x6103 7
    let request : Packet Arm.receiveSerial := ⟨Arm.setMitLimitRequestPacket, List.replicate 13 0, by decide, rfl⟩
    let args : SendArgs Arm.receiveSerial := ⟨request, rfl, 0x6104, true, true, 10, 1⟩
    let ops : List (StackOp Arm.receiveSerial) := List.replicate 16 (.act (.broadcast ack)) ++
      [.act (.send 0 args), .sessionOutbound fun _ => 0, .sessionRetries 10 (fun _ => 10) fun _ => [],
        .sessionRetries 20 (fun _ => 20) fun _ => []]
    let log := (stack Arm.receiveSerial).trace (.init Arm.receiveSerial {}) ops
    .session (.error 1 .timeout) ∈ log ∧ placed (contentOf (args.registration 1).entry) log = 0 := by
  intro ack request args ops log
  constructor <;> decide +kernel

end FloridUsb.Stack
