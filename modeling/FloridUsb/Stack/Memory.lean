import FloridUsb.Session.Pointers
import FloridUsb.Stack.SessionRuns

/-!
# A stack in memory

A stack with the array of its pending entries. What `poll` returns points into that array, and
`handle_session_retries` reads the requests through the pointers when the error callbacks have
run. By then a callback may have moved the array, or written another request over one that is
retried. A read through a pointer that dangles is undefined behaviour: the run has no state after
it.

`ProtocolStack` has the bytes of a retried request by value. Where the callbacks leave the retried
requests undisturbed the two make the same run (`memory_undisturbed`).
-/

namespace FloridUsb.Stack
set_option autoImplicit false

open Lib Rpl Session

/-- A stack and the array of its pending entries. -/
structure MemoryStack (Ts : PacketTypes) where
  stack : ProtocolStack Ts
  pending : DenseArray TransactionId PendingEntry
  same : pending.map = stack.session.pendingByTx

section Enqueue

variable (Ts : PacketTypes)

/-- `enqueue_pending_frame`, given what is behind the pointer `raw` unless that dangles. It reads the
bytes if the queue has a place and a listed type has the command and the length. -/
def TxPath.enqueuePendingPointer (s : TxPath) (cmd : UInt16) (raw : Option (List UInt8)) (len : Nat) :
    Option (TxPath × Option TxEntry) :=
  match if s.queue.length ≥ TX_QUEUE_CAP then dropOneTelemetry s.queue else some s.queue with
  | none => some (s, none)
  | some queue =>
    if ∃ T ∈ Ts.types, T.cmd = cmd ∧ T.size = len then raw.map (s.enqueuePendingFrame Ts cmd)
    else some ({ s with queue := queue }, none)

end Enqueue

section Calls

variable {Ts : PacketTypes}

/-- What calls of the application register, from the next transaction number on. -/
def registrationsFrom : TransactionId → List (Act Ts) → List (Time × Registration)
  | _, [] => []
  | t, .send now args :: acts => (now, args.registration t) :: registrationsFrom (t + 1) acts
  | _, .setNextTxId t :: acts => registrationsFrom (if t = 0 then 1 else t) acts
  | t, .registerHandler _ _ :: acts => registrationsFrom t acts
  | t, .sendResponseAndCache _ _ _ :: acts => registrationsFrom t acts
  | t, .broadcast _ :: acts => registrationsFrom t acts

theorem sendResponseAndCache_numbers (s : ProtocolStack Ts) (cmd : UInt16) (t : TransactionId) (response : Packet Ts) :
    (s.sendResponseAndCache cmd t response).1.session.pendingByTx = s.session.pendingByTx ∧
      (s.sendResponseAndCache cmd t response).1.session.nextTxId = s.session.nextTxId := by
  obtain ⟨-, sent | ⟨entry, -, -, -, cached⟩⟩ := sendResponseAndCache_parts s cmd t response
  · rw [sent]
    exact ⟨rfl, rfl⟩
  · rw [cached]
    exact ⟨rfl, rfl⟩

/-! ### Operations that insert nothing -/

theorem length_handlePacketInternal (s : ProtocolStack Ts) (now : Time) (cmd : UInt16) (data : List UInt8) :
    (s.handlePacketInternal now cmd data).1.session.pendingByTx.entries.length ≤
      s.session.pendingByTx.entries.length := by
  unfold ProtocolStack.handlePacketInternal
  split
  · unfold ProtocolStack.handleAckPacket
    split
    · exact Nat.le_refl _
    · exact ReliableSession.length_onAck
  split
  · rcases handleRequestPacket_session s cmd data with ⟨same, -⟩ | ⟨t, same, -⟩
    · exact Nat.le_of_eq (by rw [same])
    · rw [same]
      exact ReliableSession.length_onRequest
  · unfold ProtocolStack.handleResponsePacket
    dsimp only
    split
    · exact Nat.le_refl _
    · exact ReliableSession.length_onResponse

theorem length_outboundLoop (clock : Nat → Time) (fuel : Nat) (s : ProtocolStack Ts) :
    (s.outboundLoop clock fuel).1.session.pendingByTx.entries.length ≤ s.session.pendingByTx.entries.length := by
  induction fuel generalizing s with
  | zero => exact Nat.le_refl _
  | succ fuel ih =>
    have handed := @ReliableSession.length_nextOutbound s.session (clock fuel)
    unfold ProtocolStack.outboundLoop
    generalize s.session.nextOutbound (clock fuel) = r at handed
    obtain ⟨session, _ | e⟩ := r
    · exact handed
    · dsimp only
      split
      · exact handed
      · exact Nat.le_trans (ih _) handed

end Calls

namespace MemoryStack

variable {Ts : PacketTypes} (g : Growth)

theorem init_same (Ts : PacketTypes) (config : Config) :
    DenseArray.empty.map = (ProtocolStack.init Ts config).session.pendingByTx := rfl

def init (Ts : PacketTypes) (config : Config) : MemoryStack Ts := ⟨.init Ts config, .empty, init_same Ts config⟩

section Definitions

variable (s : MemoryStack Ts)

/-- The session in memory. -/
def session : ArraySession := ⟨s.stack.session, s.pending, s.same⟩

/-- A next state of the stack that inserts nothing. -/
def inPlace (next : ProtocolStack Ts)
    (fewer : next.session.pendingByTx.entries.length ≤ s.stack.session.pendingByTx.entries.length) :
    MemoryStack Ts where
  stack := next
  pending := s.pending.inPlace next.session.pendingByTx (by rw [s.same]; exact fewer)
  same := rfl

/-- The transmit half alone has changed. -/
def onTx (tx : TxPath) : MemoryStack Ts := ⟨{ s.stack with tx := tx }, s.pending, s.same⟩

def send (now : Time) (args : SendArgs Ts) : MemoryStack Ts where
  stack := (s.stack.send now args).1
  pending := s.pending.insertOrAssign g s.stack.session.nextTxId
    (.ofRegistration (args.registration s.stack.session.nextTxId) now)
  same := by rw [DenseArray.map_insertOrAssign, s.same]; rfl

def act : Act Ts → MemoryStack Ts
  | .registerHandler cmd handler => s.inPlace (s.stack.act (.registerHandler cmd handler)).1 (Nat.le_refl _)
  | .setNextTxId t => s.inPlace (s.stack.act (.setNextTxId t)).1 (Nat.le_refl _)
  | .send now args => s.send g now args
  | .sendResponseAndCache cmd t response =>
    s.inPlace (s.stack.act (.sendResponseAndCache cmd t response)).1
      (Nat.le_of_eq (by rw [ProtocolStack.act, (sendResponseAndCache_numbers s.stack cmd t response).1]))
  | .broadcast packet => s.inPlace (s.stack.act (.broadcast packet)).1 (Nat.le_refl _)

def runActs (s : MemoryStack Ts) : List (Act Ts) → MemoryStack Ts
  | [] => s
  | a :: acts => runActs (s.act g a) acts

def runErrorCallbacks (callbacks : TransactionId → List (Act Ts)) (s : MemoryStack Ts) :
    List (TransactionId × Bool) → MemoryStack Ts
  | [] => s
  | (txId, true) :: due => runErrorCallbacks callbacks (s.runActs g (callbacks txId)) due
  | (_, false) :: due => runErrorCallbacks callbacks s due

/-- `poll`: the state after the error callbacks, and the pointers made before them. -/
def poll (now : Time) (clock : TransactionId → Time) (callbacks : TransactionId → List (Act Ts)) :
    MemoryStack Ts × List RetryPointer :=
  let loop := s.session.pollLoop now clock
  (runErrorCallbacks g callbacks ⟨{ s.stack with session := loop.1.state }, loop.1.pending, loop.1.same⟩
    loop.2.callbacks, loop.2.retries)

/-- The bytes behind a pointer are enqueued. -/
def enqueuePointer (e : RetryPointer) : Option (MemoryStack Ts × List StackEvent) :=
  let raw := e.read s.session
  (s.stack.tx.enqueuePendingPointer Ts e.requestCmd raw e.requestLen).map fun r =>
    (s.onTx r.1, (r.2.map (.enqueued ⟨e.requestCmd, raw.getD []⟩)).toList)

/-- The loop of `handle_session_retries`. -/
def enqueueAll (s : MemoryStack Ts) : List RetryPointer → Option (MemoryStack Ts) × List StackEvent
  | [] => (some s, [])
  | e :: pointers =>
    match s.enqueuePointer e with
    | none => (none, [])
    | some r => ((enqueueAll r.1 pointers).1, r.2 ++ (enqueueAll r.1 pointers).2)

/-- `handle_session_retries`. Up to the reads through the pointers it logs what the stack logs. -/
def handleSessionRetries (now : Time) (clock : TransactionId → Time) (callbacks : TransactionId → List (Act Ts)) :
    Option (MemoryStack Ts) × List StackEvent :=
  let loop := s.stack.session.pollLoop now clock
  let called := ProtocolStack.runErrorCallbacks callbacks { s.stack with session := loop.1 } loop.2.callbacks
  let polled := s.poll g now clock callbacks
  let sent := polled.1.enqueueAll polled.2
  (sent.1, called.2 ++ (loop.2.retries.map (fun e => .session (.retransmitted e)) ++ sent.2))

def step : StackOp Ts → Option (MemoryStack Ts) × List StackEvent
  | .act a => (some (s.act g a), (s.stack.act a).2)
  | .packet now cmd data =>
    (some (s.inPlace (s.stack.handlePacketInternal now cmd data).1 (length_handlePacketInternal ..)),
      (s.stack.handlePacketInternal now cmd data).2)
  | .sessionOutbound clock =>
    (some (s.inPlace (s.stack.handleSessionOutbound clock).1 (length_outboundLoop ..)),
      (s.stack.handleSessionOutbound clock).2)
  | .sessionRetries now clock callbacks => s.handleSessionRetries g now clock callbacks
  | .drainTx sendFrame =>
    (some (s.inPlace (s.stack.drainTx sendFrame).1 (Nat.le_refl _)), (s.stack.drainTx sendFrame).2)

/-- What the error callbacks of a poll register: those of the requests that expire. -/
def calls (now : Time) (clock : TransactionId → Time) (callbacks : TransactionId → List (Act Ts)) :
    List (Time × Registration) :=
  registrationsFrom s.stack.session.nextTxId
    (((s.session.visits now clock).filter fun v => v.2.2.expires now && v.2.2.onError).flatMap
      fun v => callbacks v.2.2.txId)

end Definitions

end MemoryStack

/-- A stack in memory as a machine. It has no state after undefined behaviour. -/
def memoryStack (g : Growth) (Ts : PacketTypes) : Machine (Option (MemoryStack Ts)) (StackOp Ts) StackEvent where
  step
    | none, _ => (none, [])
    | some s, o => s.step g o

namespace MemoryStack

variable {Ts : PacketTypes} {g : Growth} {s : MemoryStack Ts}

/-! ### The stack in it -/

theorem stack_act (a : Act Ts) : (s.act g a).stack = (s.stack.act a).1 := by
  cases a with
  | _ => rfl

theorem stack_runActs (acts : List (Act Ts)) : (s.runActs g acts).stack = (s.stack.runActs acts).1 := by
  induction acts generalizing s with
  | nil => rfl
  | cons a acts ih =>
    rw [runActs, ih, stack_act]
    rfl

theorem stack_runErrorCallbacks (callbacks : TransactionId → List (Act Ts)) (due : List (TransactionId × Bool)) :
    (s.runErrorCallbacks g callbacks due).stack = (s.stack.runErrorCallbacks callbacks due).1 := by
  induction due generalizing s with
  | nil => rfl
  | cons cb due ih =>
    obtain ⟨t, present⟩ := cb
    cases present with
    | false => exact ih
    | true =>
      rw [runErrorCallbacks, ih, stack_runActs]
      rfl

section Poll

variable {now : Time} {clock : TransactionId → Time} {callbacks : TransactionId → List (Act Ts)}

/-- Up to the reads through the pointers the stack is the one without memory. -/
theorem stack_poll : (s.poll g now clock callbacks).1.stack =
    (ProtocolStack.runErrorCallbacks callbacks { s.stack with session := (s.stack.session.pollLoop now clock).1 }
      (s.stack.session.pollLoop now clock).2.callbacks).1 := by
  obtain ⟨state, due⟩ := @ArraySession.state_pollLoop s.session now clock
  rw [poll]
  dsimp only
  rw [stack_runErrorCallbacks, due]
  dsimp only
  rw [state]
  rfl

theorem pointers_poll : (s.poll g now clock callbacks).2 =
    (s.session.retried now clock).map fun v => v.2.2.pointer ⟨s.pending.allocation, v.1⟩ :=
  ArraySession.retries_pollLoop

theorem plain_retries : (s.stack.session.pollLoop now clock).2.retries =
    (s.session.retried now clock).map fun v => v.2.2.toRetransmit := ArraySession.plain_retries (s := s.session)

/-! ### What the error callbacks register -/

theorem pending_runActs (acts : List (Act Ts)) : (s.runActs g acts).pending =
    s.pending.insertAll g ((registrationsFrom s.stack.session.nextTxId acts).map ArraySession.entryOf) := by
  induction acts generalizing s with
  | nil => rfl
  | cons a acts ih =>
    have kept : s.pending.inPlace s.stack.session.pendingByTx (Nat.le_of_eq (by rw [s.same])) = s.pending := by
      simp only [DenseArray.inPlace, ← s.same]
    rw [runActs, ih, stack_act]
    cases a with
    | registerHandler cmd handler => exact congrArg (fun p : DenseArray _ _ => p.insertAll g _) kept
    | setNextTxId t => exact congrArg (fun p : DenseArray _ _ => p.insertAll g _) kept
    | send now args => rfl
    | sendResponseAndCache cmd t response =>
      obtain ⟨pending, number⟩ := sendResponseAndCache_numbers s.stack cmd t response
      simp only [act, inPlace, ProtocolStack.act, pending, number, registrationsFrom, kept]
    | broadcast packet => exact congrArg (fun p : DenseArray _ _ => p.insertAll g _) kept

theorem runActs_append (a b : List (Act Ts)) : s.runActs g (a ++ b) = (s.runActs g a).runActs g b := by
  induction a generalizing s with
  | nil => rfl
  | cons _ a ih => exact ih

/-- The callbacks that are due make their calls one after the other. -/
theorem runErrorCallbacks_eq (callbacks : TransactionId → List (Act Ts)) (due : List (TransactionId × Bool)) :
    s.runErrorCallbacks g callbacks due = s.runActs g ((due.filter (·.2)).flatMap fun cb => callbacks cb.1) := by
  induction due generalizing s with
  | nil => rfl
  | cons cb due ih =>
    obtain ⟨t, present⟩ := cb
    cases present with
    | false => exact ih
    | true => rw [runErrorCallbacks, ih, List.filter_cons_of_pos rfl, List.flatMap_cons, runActs_append]

theorem pending_poll : (s.poll g now clock callbacks).1.pending =
    (s.session.pollLoop now clock).1.pending.insertAll g
      ((s.calls now clock callbacks).map ArraySession.entryOf) := by
  have due : (s.session.pollLoop now clock).2.callbacks =
      ((s.session.visits now clock).filter fun v => v.2.2.expires now).map fun v => (v.2.2.txId, v.2.2.onError) := by
    rw [ArraySession.state_pollLoop.2, ArraySession.plain_pollLoop, ReliableSession.collected_callbacks,
      List.filter_map, List.map_map]
    rfl
  rw [poll]
  dsimp only
  have number : (s.session.pollLoop now clock).1.state.nextTxId = s.stack.session.nextTxId := rfl
  have both : (fun v : Nat × (TransactionId × PendingEntry) => v.2.2.onError && v.2.2.expires now) =
      fun v => v.2.2.expires now && v.2.2.onError := funext fun v => Bool.and_comm ..
  rw [runErrorCallbacks_eq, pending_runActs, due, number, calls, ← both, List.filter_map, List.filter_filter,
    List.flatMap_map]
  rfl

/-- After the callbacks a pointer reads the request that is retried, if and only if their registrations
leave it undisturbed. -/
theorem read_poll_iff {v : Nat × (TransactionId × PendingEntry)} (member : v ∈ s.session.retried now clock)
    (tx : TxPath) :
    (v.2.2.pointer ⟨s.pending.allocation, v.1⟩).read ((s.poll g now clock callbacks).1.onTx tx).session =
        some v.2.2.requestBytes ↔
      s.session.Undisturbed now (s.calls now clock callbacks) v.2.1 v.2.2.requestBytes :=
  ArraySession.read_iff member pending_poll

end Poll

/-! ### The reads -/

/-- With the bytes at hand a pointer makes no difference. -/
theorem enqueuePendingPointer_some (s : TxPath) (cmd : UInt16) (raw : List UInt8) :
    s.enqueuePendingPointer Ts cmd (some raw) raw.length = some (s.enqueuePendingFrame Ts cmd raw) := by
  unfold TxPath.enqueuePendingPointer
  split
  · rename_i place
    simp only [TxPath.enqueuePendingFrame, place]
  · rename_i queue place
    split
    · rfl
    · rename_i unlisted
      have nothing : serializeRawToFrame Ts s.serializer cmd raw = none := by
        cases made : serializeRawToFrame Ts s.serializer cmd raw with
        | none => rfl
        | some result =>
          obtain ⟨packet, same, rfl, -⟩ := serializeRawToFrame_eq_some made
          exact absurd ⟨packet.traits, packet.mem, same, packet.length_bytes.symm⟩ unlisted
      simp only [TxPath.enqueuePendingFrame, place, nothing]

theorem enqueuePointer_read {e : RetryPointer} {raw : List UInt8} (read : e.read s.session = some raw)
    (length : raw.length = e.requestLen) :
    s.enqueuePointer e = some (s.onTx (s.stack.enqueueEntry ⟨e.txId, e.requestCmd, raw⟩).1.tx,
      (s.stack.enqueueEntry ⟨e.txId, e.requestCmd, raw⟩).2) := by
  rw [enqueuePointer, read, ← length, enqueuePendingPointer_some]
  rfl

/-- Where every pointer reads the request that is retried, all requests are enqueued by value. -/
theorem enqueueAll_read (allocation : Nat) (vs : List (Nat × (TransactionId × PendingEntry)))
    (reads : ∀ v ∈ vs, (v.2.2.pointer ⟨allocation, v.1⟩).read s.session = some v.2.2.requestBytes) :
    ∃ s', s.enqueueAll (vs.map fun v => v.2.2.pointer ⟨allocation, v.1⟩) =
        (some s', (s.stack.enqueueAll (vs.map fun v => v.2.2.toRetransmit)).2) ∧
      s'.stack = (s.stack.enqueueAll (vs.map fun v => v.2.2.toRetransmit)).1 := by
  induction vs generalizing s with
  | nil => exact ⟨s, rfl, rfl⟩
  | cons v vs ih =>
    have first := enqueuePointer_read (reads v List.mem_cons_self) rfl
    obtain ⟨s', rest, after⟩ := ih (s := s.onTx (s.stack.enqueueEntry v.2.2.toRetransmit).1.tx)
      fun w member => reads w (List.mem_cons_of_mem _ member)
    refine ⟨s', ?_, after⟩
    rw [List.map_cons, enqueueAll, first]
    exact congrArg (fun r : Option (MemoryStack Ts) × List StackEvent =>
      (r.1, (s.stack.enqueueEntry v.2.2.toRetransmit).2 ++ r.2)) rest

end MemoryStack

/-- The error callbacks of a poll leave the requests that it retries undisturbed. -/
def StackOp.Undisturbed {Ts : PacketTypes} (s : MemoryStack Ts) : StackOp Ts → Prop
  | .sessionRetries now clock callbacks =>
    ∀ t p, s.stack.session.pendingByTx.find? t = some p → p.isDue now = true → p.expires now = false →
      s.session.Undisturbed now (s.calls now clock callbacks) t p.requestBytes
  | _ => True

section Undisturbed

variable {Ts : PacketTypes} {g : Growth}

theorem step_undisturbed {s : MemoryStack Ts} {o : StackOp Ts} (undisturbed : o.Undisturbed s) :
    ∃ s', s.step g o = (some s', ((stack Ts).step s.stack o).2) ∧ s'.stack = ((stack Ts).step s.stack o).1 := by
  cases o with
  | act a => exact ⟨_, rfl, MemoryStack.stack_act a⟩
  | sessionRetries now clock callbacks =>
    have same := @MemoryStack.stack_poll Ts g s now clock callbacks
    have reads : ∀ v ∈ s.session.retried now clock, (v.2.2.pointer ⟨s.pending.allocation, v.1⟩).read
        (s.poll g now clock callbacks).1.session = some v.2.2.requestBytes := by
      intro v member
      obtain ⟨visited, due, lives⟩ := ArraySession.mem_retried.mp member
      apply (MemoryStack.read_poll_iff member (s.poll g now clock callbacks).1.stack.tx).mpr
      exact undisturbed _ _ (ArraySession.mem_visits.mpr ⟨v.1, visited⟩) due lives
    obtain ⟨s', sent, after⟩ := MemoryStack.enqueueAll_read s.pending.allocation _ reads
    rw [← @MemoryStack.pointers_poll Ts g s now clock callbacks, ← MemoryStack.plain_retries, same] at sent
    rw [← MemoryStack.plain_retries, same] at after
    refine ⟨s', ?_, after⟩
    show s.handleSessionRetries g now clock callbacks = _
    rw [MemoryStack.handleSessionRetries]
    dsimp only
    rw [sent]
    rfl
  | packet now cmd data | sessionOutbound clock | drainTx sendFrame => exact ⟨_, rfl, rfl⟩

/-- **In memory or not, a stack makes the same run** if the error callbacks of every poll leave the
retried requests undisturbed. -/
theorem memory_undisturbed (s : MemoryStack Ts) (ops : List (StackOp Ts))
    (undisturbed : (memoryStack g Ts).Along (fun m o => ∀ s, m = some s → o.Undisturbed s) (some s) ops) :
    ∃ s', (memoryStack g Ts).exec (some s) ops = some s' ∧ s'.stack = (stack Ts).exec s.stack ops ∧
      (memoryStack g Ts).trace (some s) ops = (stack Ts).trace s.stack ops := by
  induction ops generalizing s with
  | nil => exact ⟨s, rfl, rfl, rfl⟩
  | cons o ops ih =>
    obtain ⟨here, later⟩ := undisturbed
    obtain ⟨s', step, after⟩ := step_undisturbed (g := g) (here s rfl)
    have machine : (memoryStack g Ts).step (some s) o = (some s', ((stack Ts).step s.stack o).2) := step
    rw [machine] at later
    obtain ⟨last, exec, stack, trace⟩ := ih s' later
    refine ⟨last, ?_, ?_, ?_⟩
    · rw [Machine.exec, machine]
      exact exec
    · rw [Machine.exec, ← after]
      exact stack
    · rw [Machine.trace, Machine.trace, machine, ← after, ← trace]

end Undisturbed

/-! ### Invariants -/

section Invariants

variable {Ts : PacketTypes} {g : Growth} {P : Act Ts → Prop}
  {I : ProtocolStack Ts → List StackEvent → List (TransactionId × Bool) → List RetransmitEntry → Prop}

end Invariants

end FloridUsb.Stack
