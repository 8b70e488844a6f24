import FloridUsb.Session.Deadline
import FloridUsb.Stack.TxQueue

/-!
# The protocol stack

`ProtocolStack` (`ProtocolStack.hpp`) without its receive path: what `handle_packet_internal`
does with a packet, the calls of the application, and the rest of `run_one_cycle`. An
operation is one of these, and every run of a stack is a list of operations.

A handler and a response callback come last in their function, so what they do follows as
further operations; their invocation is an event. The error callbacks of `poll` run before the
retransmissions are enqueued, so what they do (`Act`) is an argument of that operation. The
`session()` accessor is not an operation, but for `set_next_tx_id`.
-/

namespace FloridUsb.Stack
set_option autoImplicit false

open Lib Rpl Session

/-- The identity of a `RequestHandler`. -/
abbrev HandlerId := Nat

/-- A stack over the packet types `Ts`: `m_session`, the transmit half and `m_handlers`, where
an empty `std::function` is no handler. -/
structure ProtocolStack (Ts : PacketTypes) where
  session : ReliableSession
  tx : TxPath := {}
  handlers : DenseMap UInt16 (Option HandlerId) := .empty

inductive StackEvent where
  | session (e : Session.Event)
  /-- A packet is given to be sent: by the application, or as an ACK. -/
  | offered (content : Frame)
  /-- The entry made for a packet is put into the queue. -/
  | enqueued (content : Frame) (entry : TxEntry)
  /-- The entry made for a cached response is put into the queue. -/
  | replayed (requestCmd : UInt16) (txId : TransactionId) (entry : TxEntry)
  /-- `send_frame` returned true. -/
  | accepted (entry : TxEntry)
  | handler (handler : HandlerId) (cmd : UInt16) (txId : TransactionId) (data : List UInt8)
deriving DecidableEq

def ACK_CMD : UInt16 := 0x6FF0

def isRequestCmd (cmd : UInt16) : Bool := decide (cmd &&& 0x0001 = 0x0001 ∨ 0x6300 ≤ cmd ∧ cmd < 0x6400)

/-- The test of one packet type in `extract_tx_id_from_raw`. -/
def tryExtract (cmd : UInt16) (data : List UInt8) (T : PacketTraits) : Option TransactionId :=
  if cmd ≠ T.cmd then none else if data.length ≠ T.size then none else some (T.getTxId data)

def extractTxIdFromRaw (Ts : PacketTypes) (cmd : UInt16) (data : List UInt8) : TransactionId :=
  (Ts.types.findSome? (tryExtract cmd data)).getD 0

/-- The `AckPacket` of a request, with status 0. -/
def ackOf (Ts : PacketTypes) (cmd : UInt16) (txId : TransactionId) : Packet Ts where
  traits := ackPacket
  bytes := le32Bytes txId ++ (le16Bytes cmd ++ [0])
  mem := Ts.ack_mem
  length_bytes := rfl

/-- The arguments of `send`. The request type has a `tx_id` member, which `send` assigns, and it is a
listed one: `send` does not check that, and a request of another type is registered all the same,
but `serialize_raw_to_frame` refuses it. -/
structure SendArgs (Ts : PacketTypes) where
  request : Packet Ts
  hasTxId : request.traits.txIdOffset.isSome
  responseCmd : UInt16
  onResponse : Bool
  onError : Bool
  timeout : Time := 200000
  maxRetries : UInt8 := 3

/-- What `send` registers under a new transaction. -/
def SendArgs.registration {Ts : PacketTypes} (args : SendArgs Ts) (txId : TransactionId) : Registration where
  txId := txId
  requestCmd := args.request.traits.cmd
  responseCmd := args.responseCmd
  requestBytes := args.request.traits.setTxId args.request.bytes txId
  onResponse := args.onResponse
  onError := args.onError
  timeout := args.timeout
  maxRetries := args.maxRetries

/-- A call of the application. -/
inductive Act (Ts : PacketTypes) where
  | registerHandler (cmd : UInt16) (handler : Option HandlerId)
  | setNextTxId (nextTxId : TransactionId)
  | send (now : Time) (args : SendArgs Ts)
  | sendResponseAndCache (requestCmd : UInt16) (txId : TransactionId) (response : Packet Ts)
  | broadcast (packet : Packet Ts)

namespace ProtocolStack

variable {Ts : PacketTypes}

def init (Ts : PacketTypes) (config : Config) : ProtocolStack Ts where
  session := .init config

variable (s : ProtocolStack Ts)

/-- The transmit half has been called, and the entry it put into the queue is logged. -/
def transmit (r : TxPath × Option TxEntry) (event : TxEntry → StackEvent) : ProtocolStack Ts × List StackEvent :=
  ({ s with tx := r.1 }, (r.2.map event).toList)

/-! ### Calls of the application -/

def send (now : Time) (args : SendArgs Ts) : ProtocolStack Ts × List StackEvent :=
  let taken := s.session.takeTxId
  let r := args.registration taken.2
  ({ s with session := taken.1.registerPending now r },
    [.offered ⟨r.requestCmd, r.requestBytes⟩, .session (.registered r)])

def sendResponseAndCache (requestCmd : UInt16) (txId : TransactionId) (response : Packet Ts) :
    ProtocolStack Ts × List StackEvent :=
  match serializePacketToFrame s.tx.serializer response with
  | none => (s, [.offered response.content])
  | some (frame, serializer) =>
    match TxPath.enqueuePrebuiltFrame { s.tx with serializer := serializer } frame true with
    | (tx, none) => ({ s with tx := tx }, [.offered response.content])
    | (tx, some entry) =>
      ({ s with tx := tx, session := s.session.cacheResponse requestCmd txId response.traits.cmd frame },
        [.offered response.content, .enqueued response.content entry])

def broadcast (packet : Packet Ts) : ProtocolStack Ts × List StackEvent :=
  let r := s.transmit (s.tx.enqueuePacket packet false) (.enqueued packet.content)
  (r.1, .offered packet.content :: r.2)

def act : Act Ts → ProtocolStack Ts × List StackEvent
  | .registerHandler cmd handler => ({ s with handlers := s.handlers.insertOrAssign cmd handler }, [])
  | .setNextTxId nextTxId => ({ s with session := s.session.setNextTxId nextTxId }, [])
  | .send now args => s.send now args
  | .sendResponseAndCache requestCmd txId response => s.sendResponseAndCache requestCmd txId response
  | .broadcast packet => s.broadcast packet

def runActs (s : ProtocolStack Ts) : List (Act Ts) → ProtocolStack Ts × List StackEvent
  | [] => (s, [])
  | a :: acts => ((runActs (s.act a).1 acts).1, (s.act a).2 ++ (runActs (s.act a).1 acts).2)

/-! ### Received packets -/

/-- The handler of a command, if there is one, is invoked. -/
def invoke (cmd : UInt16) (txId : TransactionId) (data : List UInt8) : List StackEvent :=
  match s.handlers.find? cmd with
  | some (some handler) => [.handler handler cmd txId data]
  | _ => []

def handleAckPacket (now : Time) (data : List UInt8) : ProtocolStack Ts × List StackEvent :=
  if data.length ≠ ackPacket.size then (s, [])
  else ({ s with session := s.session.onAck now (ackPacket.getTxId data) }, [])

def handleRequestPacket (cmd : UInt16) (data : List UInt8) : ProtocolStack Ts × List StackEvent :=
  let txId := extractTxIdFromRaw Ts cmd data
  if ¬ cmd < 0x6300 then (s, s.invoke cmd txId data)
  else if txId = 0 then
    if 0x6000 ≤ cmd ∧ cmd < 0x6100 then (s, s.invoke cmd txId data) else (s, [])
  else
    let result := s.session.onRequest cmd txId
    let ack := ackOf Ts cmd txId
    let acked := transmit { s with session := result.1 } (s.tx.enqueuePacket ack true) (.enqueued ack.content)
    let events := .session (.requested cmd txId result.2) :: .offered ack.content :: acked.2
    if result.2.isDuplicate then
      match result.2.cached with
      | some cached =>
        if cached.responseBytes.length > 0 then
          let replayed := acked.1.transmit (acked.1.tx.enqueuePrebuiltFrame cached.responseBytes true)
              (.replayed cmd txId)
          (replayed.1, events ++ replayed.2)
        else (acked.1, events)
      | none => (acked.1, events)
    else (acked.1, events ++ s.invoke cmd txId data)

def handleResponsePacket (cmd : UInt16) (data : List UInt8) : ProtocolStack Ts × List StackEvent :=
  let txId := extractTxIdFromRaw Ts cmd data
  if txId = 0 then (s, [])
  else
    let r := s.session.onResponse cmd txId data
    ({ s with session := r.1 }, r.2.map .session)

def handlePacketInternal (now : Time) (cmd : UInt16) (data : List UInt8) : ProtocolStack Ts × List StackEvent :=
  if cmd = ACK_CMD then s.handleAckPacket now data
  else if isRequestCmd cmd then s.handleRequestPacket cmd data
  else s.handleResponsePacket cmd data

/-! ### The rest of a cycle -/

/-- The bytes of a session entry are enqueued. -/
def enqueueEntry (e : RetransmitEntry) : ProtocolStack Ts × List StackEvent :=
  s.transmit (s.tx.enqueuePendingFrame Ts e.requestCmd e.requestBytes) (.enqueued ⟨e.requestCmd, e.requestBytes⟩)

/-- The loop of `handle_session_outbound`; `clock` is read in each round. -/
def outboundLoop (clock : Nat → Time) : Nat → ProtocolStack Ts → ProtocolStack Ts × List StackEvent
  | 0, s => (s, [])
  | fuel + 1, s =>
    match s.session.nextOutbound (clock fuel) with
    | (session, none) => ({ s with session := session }, [])
    | (session, some e) =>
      let enqueued := enqueueEntry { s with session := session } e
      if enqueued.2.isEmpty then (enqueued.1, [.session (.handedOut e)])
      else
        let rest := outboundLoop clock fuel enqueued.1
        (rest.1, .session (.handedOut e) :: (enqueued.2 ++ rest.2))

/-- `handle_session_outbound`. Every round takes an identifier from the queue, so the fuel is
never the limit. -/
def handleSessionOutbound (clock : Nat → Time) : ProtocolStack Ts × List StackEvent :=
  outboundLoop clock (s.session.outboundQueue.length + 1) s

/-- The callbacks after the loop of `poll`, each with what it does. -/
def runErrorCallbacks (callbacks : TransactionId → List (Act Ts)) (s : ProtocolStack Ts) :
    List (TransactionId × Bool) → ProtocolStack Ts × List StackEvent
  | [] => (s, [])
  | (txId, true) :: due =>
    let r := s.runActs (callbacks txId)
    ((runErrorCallbacks callbacks r.1 due).1,
      .session (.error txId .timeout) :: (r.2 ++ (runErrorCallbacks callbacks r.1 due).2))
  | (_, false) :: due => runErrorCallbacks callbacks s due

/-- The loop of `handle_session_retries`, which ignores what the enqueues return. -/
def enqueueAll (s : ProtocolStack Ts) : List RetransmitEntry → ProtocolStack Ts × List StackEvent
  | [] => (s, [])
  | e :: entries =>
    ((enqueueAll (s.enqueueEntry e).1 entries).1, (s.enqueueEntry e).2 ++ (enqueueAll (s.enqueueEntry e).1 entries).2)

/-- `handle_session_retries`, with `poll` written out. What is enqueued are the bytes that the loop of
`poll` found; the source reads them through pointers after the callbacks (`MemoryStack`). They are the
same unless a callback moves the pending entries or writes other bytes under a retried transaction
(`memory_undisturbed`). -/
def handleSessionRetries (now : Time) (clock : TransactionId → Time) (callbacks : TransactionId → List (Act Ts)) :
    ProtocolStack Ts × List StackEvent :=
  let loop := s.session.pollLoop now clock
  let called := runErrorCallbacks callbacks { s with session := loop.1 } loop.2.callbacks
  let sent := called.1.enqueueAll loop.2.retries
  (sent.1, called.2 ++ (loop.2.retries.map (fun e => .session (.retransmitted e)) ++ sent.2))

def drainTx (sendFrame : Option Bool) : ProtocolStack Ts × List StackEvent :=
  ({ s with tx := (s.tx.drainTx sendFrame).1 }, ((s.tx.drainTx sendFrame).2.map .accepted).toList)

def nextWakeTime : Option Time := s.session.nextDeadline

/-- A stack that sleeps until its wake time misses no retransmission. -/
theorem handleSessionRetries_early {now : Time} (early : ∀ d, s.nextWakeTime = some d → now < d)
    (clock : TransactionId → Time) (callbacks : TransactionId → List (Act Ts)) :
    s.handleSessionRetries now clock callbacks = (s, []) := by
  rw [handleSessionRetries, pollLoop_idle (idle_of_early early)]
  rfl

end ProtocolStack

inductive StackOp (Ts : PacketTypes) where
  | act (a : Act Ts)
  /-- `handle_packet_internal`, called while received bytes are parsed. -/
  | packet (now : Time) (cmd : UInt16) (data : List UInt8)
  | sessionOutbound (clock : Nat → Time)
  | sessionRetries (now : Time) (clock : TransactionId → Time) (callbacks : TransactionId → List (Act Ts))
  | drainTx (sendFrame : Option Bool)

def ProtocolStack.step {Ts : PacketTypes} (s : ProtocolStack Ts) : StackOp Ts → ProtocolStack Ts × List StackEvent
  | .act a => s.act a
  | .packet now cmd data => s.handlePacketInternal now cmd data
  | .sessionOutbound clock => s.handleSessionOutbound clock
  | .sessionRetries now clock callbacks => s.handleSessionRetries now clock callbacks
  | .drainTx sendFrame => s.drainTx sendFrame

/-- A stack as a machine. -/
def stack (Ts : PacketTypes) : Machine (ProtocolStack Ts) (StackOp Ts) StackEvent where
  step := ProtocolStack.step

/-! ### Reading a `tx_id` -/

section Extract

variable {Ts : PacketTypes} {T : PacketTraits} {data : List UInt8}

/-- The `tx_id` of a packet of a listed type is its member. -/
theorem extractTxIdFromRaw_mem (member : T ∈ Ts.types) (size : data.length = T.size) :
    extractTxIdFromRaw Ts T.cmd data = T.getTxId data := by
  have here : tryExtract T.cmd data T = some (T.getTxId data) := by
    rw [tryExtract, if_neg (by simp), if_neg (by simp [size])]
  cases found : Ts.types.findSome? (tryExtract T.cmd data) with
  | none =>
    have nowhere := List.findSome?_eq_none_iff.mp found T member
    rw [here] at nowhere
    cases nowhere
  | some txId =>
    obtain ⟨U, listed, extracted⟩ := List.exists_of_findSome?_eq_some found
    rw [tryExtract] at extracted
    split at extracted
    · cases extracted
    rename_i same
    have unique : U = T := by
      apply Option.some.inj
      rw [← PacketTypes.find_mem listed, ← PacketTypes.find_mem member, not_not.mp same]
    rw [unique, if_neg (by simp [size])] at extracted
    rw [extractTxIdFromRaw, found, ← Option.some.inj extracted]
    rfl

theorem getTxId_of_none (none : T.txIdOffset = none) : T.getTxId data = 0 := by
  rw [PacketTraits.getTxId, none]

/-- The `tx_id` that `send` puts into a request is the one the peer extracts. -/
theorem extractTxIdFromRaw_registration (args : SendArgs Ts) (txId : TransactionId) :
    extractTxIdFromRaw Ts (args.registration txId).requestCmd (args.registration txId).requestBytes = txId := by
  obtain ⟨o, offset⟩ := Option.isSome_iff_exists.mp args.hasTxId
  have size := PacketTraits.length_setTxId txId args.request.length_bytes
  exact (extractTxIdFromRaw_mem args.request.mem size).trans
    (PacketTraits.getTxId_setTxId txId args.request.length_bytes offset)

end Extract

/-! ### Invariants of a stack -/

/-- The calls of the application in an operation, its error callbacks' included, are of one kind,
and a received packet is of another. -/
def StackOp.Meets {Ts : PacketTypes} (P : Act Ts → Prop) (Q : Frame → Prop) : StackOp Ts → Prop
  | .act a => P a
  | .packet _ cmd data => Q ⟨cmd, data⟩
  | .sessionRetries _ _ callbacks => ∀ txId, ∀ a ∈ callbacks txId, P a
  | _ => True

theorem StackOp.meets_true {Ts : PacketTypes} (o : StackOp Ts) : o.Meets (fun _ => True) fun _ => True := by
  cases o with
  | act a | packet now cmd data => trivial
  | sessionRetries now clock callbacks => exact fun _ _ _ => trivial
  | sessionOutbound clock | drainTx sendFrame => trivial

/-- What the parts of the operations keep: an invariant of the state, the log and the session
entries that are still to be enqueued, in a run whose calls are of a kind `P`, whose packets are
of a kind `Q` and whose log satisfies `G`. -/
structure Keeps {Ts : PacketTypes} (P : Act Ts → Prop) (Q : Frame → Prop) (G : List StackEvent → Prop)
    (I : ProtocolStack Ts → List StackEvent → List RetransmitEntry → Prop) : Prop where
  closed : ∀ h ev, G (h ++ ev) → G h
  act : ∀ s h todo a, P a → I s h todo → G (h ++ (s.act a).2) → I (s.act a).1 (h ++ (s.act a).2) todo
  packet : ∀ s h now cmd data, Q ⟨cmd, data⟩ → I s h [] →
    I (s.handlePacketInternal now cmd data).1 (h ++ (s.handlePacketInternal now cmd data).2) []
  handOut : ∀ s h now, I s h [] → I { s with session := (s.session.nextOutbound now).1 }
    (h ++ ((s.session.nextOutbound now).2.map fun e => .session (.handedOut e)).toList)
      (s.session.nextOutbound now).2.toList
  enqueue : ∀ s h e todo, I s h (e :: todo) → I (s.enqueueEntry e).1 (h ++ (s.enqueueEntry e).2) todo
  pollLoop : ∀ s h now clock, I s h [] →
    I { s with session := (s.session.pollLoop now clock).1 } h (s.session.pollLoop now clock).2.retries
  error : ∀ s h todo txId, I s h todo → I s (h ++ [.session (.error txId .timeout)]) todo
  retransmitted : ∀ s h todo, I s h todo → I s (h ++ todo.map fun e => .session (.retransmitted e)) todo
  drainTx : ∀ s h sendFrame, I s h [] → I (s.drainTx sendFrame).1 (h ++ (s.drainTx sendFrame).2) []

/-- Every entry that the loop of `handle_session_outbound` enqueues meets `E` where it is enqueued. -/
def ProtocolStack.OutboundMeets {Ts : PacketTypes} (E : ProtocolStack Ts → RetransmitEntry → Prop)
    (clock : Nat → Time) :
    Nat → ProtocolStack Ts → Prop
  | 0, _ => True
  | fuel + 1, s =>
    match s.session.nextOutbound (clock fuel) with
    | (_, none) => True
    | (session, some e) =>
      let handed : ProtocolStack Ts := { s with session := session }
      E handed e ∧ ((handed.enqueueEntry e).2.isEmpty = false → OutboundMeets E clock fuel (handed.enqueueEntry e).1)

/-- Every entry meets `E` when it is its turn to be enqueued. -/
def ProtocolStack.AllMeet {Ts : PacketTypes} (E : ProtocolStack Ts → RetransmitEntry → Prop) (s : ProtocolStack Ts) :
    List RetransmitEntry → Prop
  | [] => True
  | e :: entries => E s e ∧ AllMeet E (s.enqueueEntry e).1 entries

/-- Every session entry that an operation enqueues meets `E` where it is enqueued. -/
def StackOp.Offers {Ts : PacketTypes} (E : ProtocolStack Ts → RetransmitEntry → Prop) (s : ProtocolStack Ts) :
    StackOp Ts → Prop
  | .sessionOutbound clock => s.OutboundMeets E clock (s.session.outboundQueue.length + 1)
  | .sessionRetries now clock callbacks =>
    let loop := s.session.pollLoop now clock
    (ProtocolStack.runErrorCallbacks callbacks { s with session := loop.1 } loop.2.callbacks).1.AllMeet E loop.2.retries
  | _ => True

section Anything

variable {Ts : PacketTypes}

theorem ProtocolStack.outboundMeets_true (clock : Nat → Time) (fuel : Nat) (s : ProtocolStack Ts) :
    s.OutboundMeets (fun _ _ => True) clock fuel := by
  induction fuel generalizing s with
  | zero => trivial
  | succ fuel ih =>
    unfold OutboundMeets
    split
    · trivial
    · exact ⟨trivial, fun _ => ih _⟩

theorem ProtocolStack.allMeet_true (s : ProtocolStack Ts) (entries : List RetransmitEntry) :
    s.AllMeet (fun _ _ => True) entries := by
  induction entries generalizing s with
  | nil => trivial
  | cons e entries ih => exact ⟨trivial, ih _⟩

theorem StackOp.offers_true (s : ProtocolStack Ts) (o : StackOp Ts) : o.Offers (fun _ _ => True) s := by
  cases o with
  | sessionOutbound clock => exact s.outboundMeets_true clock _
  | sessionRetries now clock callbacks => exact ProtocolStack.allMeet_true _ _
  | act a | packet now cmd data | drainTx sendFrame => trivial

end Anything

/-- As `Keeps`, with the error callbacks that are still due, and for runs in which every session
entry meets `E` where it is enqueued. -/
structure KeepsDue {Ts : PacketTypes} (P : Act Ts → Prop) (Q : Frame → Prop) (G : List StackEvent → Prop)
    (E : ProtocolStack Ts → RetransmitEntry → Prop)
    (I : ProtocolStack Ts → List StackEvent → List (TransactionId × Bool) → List RetransmitEntry → Prop) : Prop where
  closed : ∀ h ev, G (h ++ ev) → G h
  act : ∀ s h due todo a, P a → I s h due todo → G (h ++ (s.act a).2) → I (s.act a).1 (h ++ (s.act a).2) due todo
  packet : ∀ s h now cmd data, Q ⟨cmd, data⟩ → I s h [] [] →
    I (s.handlePacketInternal now cmd data).1 (h ++ (s.handlePacketInternal now cmd data).2) [] []
  handOut : ∀ s h now, I s h [] [] → I { s with session := (s.session.nextOutbound now).1 }
    (h ++ ((s.session.nextOutbound now).2.map fun e => .session (.handedOut e)).toList) []
      (s.session.nextOutbound now).2.toList
  enqueue : ∀ s h e todo, E s e → I s h [] (e :: todo) → I (s.enqueueEntry e).1 (h ++ (s.enqueueEntry e).2) [] todo
  pollLoop : ∀ s h now clock, I s h [] [] → I { s with session := (s.session.pollLoop now clock).1 } h
    (s.session.pollLoop now clock).2.callbacks (s.session.pollLoop now clock).2.retries
  error : ∀ s h txId due todo, I s h ((txId, true) :: due) todo → I s (h ++ [.session (.error txId .timeout)]) due todo
  skip : ∀ s h txId due todo, I s h ((txId, false) :: due) todo → I s h due todo
  retransmitted : ∀ s h todo, I s h [] todo → I s (h ++ todo.map fun e => .session (.retransmitted e)) [] todo
  drainTx : ∀ s h sendFrame, I s h [] [] → I (s.drainTx sendFrame).1 (h ++ (s.drainTx sendFrame).2) [] []

namespace KeepsDue

variable {Ts : PacketTypes} {P : Act Ts → Prop} {Q : Frame → Prop} {G : List StackEvent → Prop}
  {E : ProtocolStack Ts → RetransmitEntry → Prop}
  {I : ProtocolStack Ts → List StackEvent → List (TransactionId × Bool) → List RetransmitEntry → Prop}
  {s : ProtocolStack Ts} {h : List StackEvent} {due : List (TransactionId × Bool)} {todo : List RetransmitEntry}

theorem runActs (keeps : KeepsDue P Q G E I) (acts : List (Act Ts)) (kind : ∀ a ∈ acts, P a) (start : I s h due todo)
    (good : G (h ++ (s.runActs acts).2)) : I (s.runActs acts).1 (h ++ (s.runActs acts).2) due todo := by
  induction acts generalizing s h with
  | nil => simpa [ProtocolStack.runActs] using start
  | cons a acts ih =>
    simp only [ProtocolStack.runActs] at good ⊢
    rw [← List.append_assoc] at good ⊢
    apply ih (fun b member => kind b (List.mem_cons_of_mem _ member)) _ good
    exact keeps.act s h due todo a (kind a List.mem_cons_self) start (keeps.closed _ _ good)

theorem runErrorCallbacks (keeps : KeepsDue P Q G E I) (callbacks : TransactionId → List (Act Ts))
    (kind : ∀ txId, ∀ a ∈ callbacks txId, P a) (start : I s h due todo)
    (good : G (h ++ (s.runErrorCallbacks callbacks due).2)) :
    I (s.runErrorCallbacks callbacks due).1 (h ++ (s.runErrorCallbacks callbacks due).2) [] todo := by
  induction due generalizing s h with
  | nil => simpa [ProtocolStack.runErrorCallbacks] using start
  | cons cb due ih =>
    obtain ⟨txId, present⟩ := cb
    cases present with
    | false => exact ih (keeps.skip s h txId due todo start) good
    | true =>
      simp only [ProtocolStack.runErrorCallbacks] at good ⊢
      rw [List.append_cons, ← List.append_assoc] at good ⊢
      exact ih (keeps.runActs _ (kind txId) (keeps.error s h txId due todo start) (keeps.closed _ _ good)) good

theorem enqueueAll (keeps : KeepsDue P Q G E I) (entries : List RetransmitEntry) (meets : s.AllMeet E entries)
    (start : I s h [] entries) : I (s.enqueueAll entries).1 (h ++ (s.enqueueAll entries).2) [] [] := by
  induction entries generalizing s h with
  | nil => simpa [ProtocolStack.enqueueAll] using start
  | cons e entries ih =>
    simp only [ProtocolStack.enqueueAll]
    rw [← List.append_assoc]
    exact ih meets.2 (keeps.enqueue s h e entries meets.1 start)

theorem outboundLoop (keeps : KeepsDue P Q G E I) (clock : Nat → Time) (fuel : Nat)
    (meets : s.OutboundMeets E clock fuel)
    (start : I s h [] []) : I (s.outboundLoop clock fuel).1 (h ++ (s.outboundLoop clock fuel).2) [] [] := by
  induction fuel generalizing s h with
  | zero => simpa [ProtocolStack.outboundLoop] using start
  | succ fuel ih =>
    have handed := keeps.handOut s h (clock fuel) start
    unfold ProtocolStack.outboundLoop
    unfold ProtocolStack.OutboundMeets at meets
    generalize s.session.nextOutbound (clock fuel) = r at handed meets
    obtain ⟨session, _ | e⟩ := r
    · simpa using handed
    · have enqueued := keeps.enqueue _ _ e [] meets.1 handed
      simp only [Option.map_some, Option.toList_some] at enqueued ⊢
      split
      · rename_i nothing
        rw [List.isEmpty_iff.mp nothing, List.append_nil] at enqueued
        exact enqueued
      · rename_i placed
        have rest := ih (meets.2 (Bool.eq_false_iff.mpr placed)) enqueued
        rw [List.append_assoc, List.append_assoc] at rest
        exact rest

/-- An operation keeps what its parts keep. -/
theorem step (keeps : KeepsDue P Q G E I) (o : StackOp Ts) (kind : o.Meets P Q) (meets : o.Offers E s)
    (start : I s h [] [])
    (good : G (h ++ ((stack Ts).step s o).2)) : I ((stack Ts).step s o).1 (h ++ ((stack Ts).step s o).2) [] [] := by
  cases o with
  | act a => exact keeps.act s h [] [] a kind start good
  | packet now cmd data => exact keeps.packet s h now cmd data kind start
  | sessionOutbound clock => exact keeps.outboundLoop clock _ meets start
  | sessionRetries now clock callbacks =>
    change G (h ++ (_ ++ _)) at good
    show I (s.handleSessionRetries now clock callbacks).1 (h ++ (s.handleSessionRetries now clock callbacks).2) [] []
    simp only [ProtocolStack.handleSessionRetries]
    rw [← List.append_assoc] at good ⊢
    have called := keeps.runErrorCallbacks callbacks kind (keeps.pollLoop s h now clock start) (keeps.closed _ _ good)
    rw [← List.append_assoc]
    exact keeps.enqueueAll _ meets (keeps.retransmitted _ _ _ called)
  | drainTx sendFrame => exact keeps.drainTx s h sendFrame start

/-- **The run rule of a stack.** -/
theorem run (keeps : KeepsDue P Q G E I) (start : I s [] [] []) (ops : List (StackOp Ts))
    (kind : ∀ o ∈ ops, o.Meets P Q)
    (meets : (stack Ts).Along (fun s o => o.Offers E s) s ops) (good : G ((stack Ts).trace s ops)) :
    I ((stack Ts).exec s ops) ((stack Ts).trace s ops) [] [] := by
  have both : (stack Ts).Along (fun s o => o.Meets P Q ∧ o.Offers E s) s ops := by
    rw [(stack Ts).along_iff_at_split] at meets ⊢
    intro pre o post split
    exact ⟨kind o (by rw [split]; simp), meets pre o post split⟩
  exact (stack Ts).run_rule (I := fun s h => I s h [] []) keeps.closed start
    (fun _ _ o i both good => keeps.step o both.1 both.2 i good) ops both good

/-- The run rule where any session entry may be enqueued. -/
theorem run_any (keeps : KeepsDue P Q G (fun _ _ => True) I) (start : I s [] [] []) (ops : List (StackOp Ts))
    (kind : ∀ o ∈ ops, o.Meets P Q) (good : G ((stack Ts).trace s ops)) :
    I ((stack Ts).exec s ops) ((stack Ts).trace s ops) [] [] := by
  apply keeps.run start ops kind _ good
  rw [(stack Ts).along_iff_at_split]
  exact fun pre o post _ => o.offers_true _

end KeepsDue

namespace Keeps

variable {Ts : PacketTypes} {P : Act Ts → Prop} {Q : Frame → Prop} {G : List StackEvent → Prop}
  {I : ProtocolStack Ts → List StackEvent → List RetransmitEntry → Prop} {s : ProtocolStack Ts} {h : List StackEvent}

theorem due (keeps : Keeps P Q G I) : KeepsDue P Q G (fun _ _ => True) (fun s h _ todo => I s h todo) where
  closed := keeps.closed
  act s h _ todo a := keeps.act s h todo a
  packet := keeps.packet
  handOut := keeps.handOut
  enqueue s h e todo _ := keeps.enqueue s h e todo
  pollLoop := keeps.pollLoop
  error s h txId _ todo := keeps.error s h todo txId
  skip _ _ _ _ _ i := i
  retransmitted := keeps.retransmitted
  drainTx := keeps.drainTx

/-- An operation keeps what its parts keep, whatever the callbacks that are due. -/
theorem step (keeps : Keeps P Q G I) (o : StackOp Ts) (kind : o.Meets P Q) (start : I s h [])
    (good : G (h ++ ((stack Ts).step s o).2)) : I ((stack Ts).step s o).1 (h ++ ((stack Ts).step s o).2) [] :=
  keeps.due.step o kind (o.offers_true s) start good

end Keeps

end FloridUsb.Stack
