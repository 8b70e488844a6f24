import FloridUsb.Lib.InOrder
import FloridUsb.Session.OneAtATime
import FloridUsb.Stack.Codec
import FloridUsb.Stack.Repeats

/-!
# The order of requests

A stack with a window of one sends its reliable requests in the order in which its session has
handed them out: first sending and retries of a request, queued or sent, come before those of
the next (`SendsInOrder`). The application makes reliable requests with `send` alone; its
broadcasts and responses are other packets.
-/

namespace FloridUsb.Stack
set_option autoImplicit false

open Lib Rpl Session

/-- The key of a frame that carries a reliable request. -/
def frameKey (Ts : PacketTypes) (frame : List UInt8) : Option RequestKey := (readFrame Ts frame).bind (requestKey Ts)

/-- The reliable requests among the frames, in order. -/
def frameKeys (Ts : PacketTypes) (frames : List (List UInt8)) : List RequestKey := frames.filterMap (frameKey Ts)

def StackEvent.session? : StackEvent → Option Session.Event
  | .session e => some e
  | _ => none

/-- The log of the session. -/
def sessionLog (log : List StackEvent) : List Session.Event := log.filterMap StackEvent.session?

/-- No reliable request, but for `send`. -/
def Act.Plain {Ts : PacketTypes} : Act Ts → Prop
  | .sendResponseAndCache _ _ packet | .broadcast packet => requestKey Ts packet.content = none
  | _ => True

/-- The entry is what a session keeps of a `send`. -/
def Sends (Ts : PacketTypes) (e : RetransmitEntry) : Prop :=
  ∃ args : SendArgs Ts, e.requestCmd = args.request.traits.cmd ∧
    e.requestBytes = (args.registration e.txId).requestBytes.take MAX_PACKET_SIZE

@[simp] theorem frameKeys_append (Ts : PacketTypes) (a b : List (List UInt8)) :
    frameKeys Ts (a ++ b) = frameKeys Ts a ++ frameKeys Ts b := List.filterMap_append

@[simp] theorem sessionLog_append (a b : List StackEvent) : sessionLog (a ++ b) = sessionLog a ++ sessionLog b :=
  List.filterMap_append

@[simp] theorem acceptedFrames_append (a b : List StackEvent) :
    acceptedFrames (a ++ b) = acceptedFrames a ++ acceptedFrames b := List.filterMap_append

theorem sessionLog_session (events : List Session.Event) : sessionLog (events.map .session) = events := by
  rw [sessionLog, List.filterMap_map]
  exact List.filterMap_some

theorem mem_sessionLog {log : List StackEvent} {e : Session.Event} : e ∈ sessionLog log ↔ .session e ∈ log := by
  rw [sessionLog, List.mem_filterMap]
  constructor
  · rintro ⟨x, member, same⟩
    cases x with
    | session e' =>
      cases same
      exact member
    | offered _ | enqueued _ _ | replayed _ _ _ | accepted _ | handler _ _ _ _ => cases same
  · intro member
    exact ⟨.session e, member, rfl⟩

theorem acceptedFrames_session (events : List Session.Event) : acceptedFrames (events.map .session) = [] := by
  rw [acceptedFrames, List.filterMap_map, List.filterMap_eq_nil_iff]
  intro e _
  rfl

theorem note_silent {e : StackEvent} (note : e.isNote = true) : sessionLog [e] = [] ∧ acceptedFrames [e] = [] := by
  cases e with
  | offered content | handler handler cmd txId data => exact ⟨rfl, rfl⟩
  | session e | enqueued content entry | replayed cmd txId entry | accepted entry => cases note

/-! ### Keys of frames -/

section Keys

variable {Ts : PacketTypes}

theorem frameKey_frameBytes (seq : UInt8) {packet : Packet Ts} (fits : packet.traits.frameSize ≤ MAX_FRAME_SIZE) :
    frameKey Ts (frameBytes seq packet.traits.cmd packet.bytes) = requestKey Ts packet.content := by
  simp only [MAX_FRAME_SIZE] at fits
  rw [frameKey, readFrame_frameBytes seq packet (by omega)]
  rfl

/-- A frame that is no request is none either when it is cut. -/
theorem frameKey_take (seq : UInt8) {packet : Packet Ts} (fits : packet.traits.frameSize ≤ MAX_FRAME_SIZE)
    (plain : requestKey Ts packet.content = none) (n : Nat) :
    frameKey Ts ((frameBytes seq packet.traits.cmd packet.bytes).take n) = none := by
  by_cases short : n < (frameBytes seq packet.traits.cmd packet.bytes).length
  · simp only [MAX_FRAME_SIZE] at fits
    rw [frameKey, readFrame_take seq packet (by omega) short]
    rfl
  · rw [List.take_of_length_le (by omega), frameKey_frameBytes seq fits, plain]

/-- A request that is sent has the key of its entry. -/
theorem Sends.key {e : RetransmitEntry} (sends : Sends Ts e) {packet : Packet Ts}
    (cmd : packet.traits.cmd = e.requestCmd)
    (bytes : packet.bytes = e.requestBytes) {k : RequestKey} (key : requestKey Ts packet.content = some k) :
    k = e.key := by
  obtain ⟨args, same, stored⟩ := sends
  have traits : packet.traits = args.request.traits := by
    apply Option.some.inj
    rw [← PacketTypes.find_mem packet.mem, ← PacketTypes.find_mem args.request.mem, cmd, same]
  have size : (args.registration e.txId).requestBytes.length = args.request.traits.size :=
    PacketTraits.length_setTxId e.txId args.request.length_bytes
  have whole : e.requestBytes = (args.registration e.txId).requestBytes := by
    have long : (e.requestBytes).length = args.request.traits.size := by rw [← bytes, packet.length_bytes, traits]
    rw [stored, List.length_take, size] at long
    rw [stored, List.take_of_length_le (by omega)]
  have txId : extractTxIdFromRaw Ts packet.traits.cmd packet.bytes = e.txId := by
    rw [bytes, whole, traits]
    exact extractTxIdFromRaw_registration args e.txId
  have read : k = (packet.traits.cmd, extractTxIdFromRaw Ts packet.traits.cmd packet.bytes) := requestKey_eq_some key
  rw [read, txId, cmd]
  rfl

theorem ackOf_plain (cmd : UInt16) (txId : TransactionId) : requestKey Ts (ackOf Ts cmd txId).content = none := by
  apply if_neg
  rintro ⟨-, region, -⟩
  change ACK_CMD < 0x6300 at region
  exact absurd region (by decide)

end Keys

/-! ### The invariant -/

/-- Entries to be enqueued are of the request handed out last, and the requests sent and queued
come in the order in which they were handed out. -/
structure SendsInOrder (Ts : PacketTypes) (s : ProtocolStack Ts) (log : List StackEvent)
    (todo : List RetransmitEntry) : Prop where
  one : OneAtATime s.session (sessionLog log)
  pending : ∀ t p, s.session.pendingByTx.find? t = some p → Sends Ts p.toRetransmit
  cached : ∀ k c, s.session.completedCache.find? k = some c → frameKey Ts c.responseBytes = none
  todo : ∀ e ∈ todo, Sends Ts e ∧ (handedKeys (sessionLog log)).getLast? = some e.key
  order : InOrder (handedKeys (sessionLog log)) (frameKeys Ts (acceptedFrames log ++ s.tx.queue.map (·.frame)))

namespace SendsInOrder

variable {Ts : PacketTypes} {s : ProtocolStack Ts} {h : List StackEvent} {todo : List RetransmitEntry}

theorem init (Ts : PacketTypes) {config : Config} (one : config.windowSize ≤ 1) :
    SendsInOrder Ts (.init Ts config) [] [] where
  one := .init one
  pending t p found := by cases found
  cached k c found := by cases found
  todo e member := by cases member
  order := .nil _

/-- Nothing is handed out, and nothing is sent. -/
theorem extend (i : SendsInOrder Ts s h todo) {ev : List StackEvent} (quiet : ∀ e, .handedOut e ∉ sessionLog ev)
    (unsent : acceptedFrames ev = []) : SendsInOrder Ts s (h ++ ev) todo := by
  have handed : handedKeys (sessionLog (h ++ ev)) = handedKeys (sessionLog h) := by
    rw [sessionLog_append, handedKeys_append, handedKeys_quiet quiet, List.append_nil]
  constructor
  · rw [sessionLog_append]
    exact i.one.extend quiet
  · exact i.pending
  · exact i.cached
  · rw [handed]
    exact i.todo
  · rw [handed, acceptedFrames_append, unsent, List.append_nil]
    exact i.order

/-- Session events that hand nothing out. -/
theorem extendSession (i : SendsInOrder Ts s h todo) (ev : List Session.Event) (quiet : ∀ e, .handedOut e ∉ ev) :
    SendsInOrder Ts s (h ++ ev.map .session) todo := by
  apply i.extend
  · rw [sessionLog_session]
    exact quiet
  · exact acceptedFrames_session ev

/-- Session entries may leave, and may change but for their request and their flag. -/
theorem carry (i : SendsInOrder Ts s h todo) {session' : ReliableSession} (carries : s.session.Carries session')
    (one : OneAtATime session' (sessionLog h))
    (cached : ∀ k c, session'.completedCache.find? k = some c → frameKey Ts c.responseBytes = none) :
    SendsInOrder Ts { s with session := session' } h todo := by
  constructor
  · exact one
  · intro t p found
    obtain ⟨q, before, same, -⟩ := carries t p found
    rw [PendingEntry.toRetransmit_eq same]
    exact i.pending t q before
  · exact cached
  · exact i.todo
  · exact i.order

/-- An entry comes into the queue, if it is a request then the one handed out last. -/
theorem transmit (i : SendsInOrder Ts s h todo) {r : TxPath × Option TxEntry} {event : TxEntry → StackEvent}
    (enqueues : TxPath.Enqueues s.tx.queue r) (silent : ∀ e, sessionLog [event e] = [] ∧ acceptedFrames [event e] = [])
    (new : ∀ e k, r.2 = some e → frameKey Ts e.frame = some k → (handedKeys (sessionLog h)).getLast? = some k) :
    SendsInOrder Ts (s.transmit r event).1 (h ++ (s.transmit r event).2) todo := by
  obtain ⟨kept, old, queue⟩ := enqueues
  have waiting : InOrder (handedKeys (sessionLog h)) (frameKeys Ts (acceptedFrames h ++ kept.map (·.frame))) := by
    apply i.order.sublist
    exact ((List.Sublist.refl _).append (old.map _)).filterMap _
  have queued : SendsInOrder Ts (s.transmit r event).1 h todo := by
    refine ⟨i.one, i.pending, i.cached, i.todo, ?_⟩
    show InOrder _ (frameKeys Ts (acceptedFrames h ++ r.1.queue.map (·.frame)))
    rw [queue]
    cases pushed : r.2 with
    | none =>
      rw [Option.toList_none, List.append_nil]
      exact waiting
    | some e =>
      have keys : frameKeys Ts (acceptedFrames h ++ (kept ++ [e]).map (·.frame)) =
          frameKeys Ts (acceptedFrames h ++ kept.map (·.frame)) ++ frameKeys Ts [e.frame] := by
        rw [List.map_append, ← List.append_assoc, frameKeys_append Ts (acceptedFrames h ++ _)]
        rfl
      rw [Option.toList_some, keys, frameKeys, frameKeys, List.filterMap_cons]
      cases key : frameKey Ts e.frame with
      | none =>
        simp only [List.filterMap_nil, List.append_nil]
        exact waiting
      | some k => exact waiting.snoc i.one.nodup (new e k pushed key)
  have logged : sessionLog (s.transmit r event).2 = [] ∧ acceptedFrames (s.transmit r event).2 = [] := by
    show sessionLog (r.2.map event).toList = [] ∧ acceptedFrames (r.2.map event).toList = []
    cases r.2 with
    | none => exact ⟨rfl, rfl⟩
    | some e => exact silent e
  apply queued.extend
  · rw [logged.1]
    exact fun e => List.not_mem_nil
  · exact logged.2

/-- A packet that is no reliable request is enqueued. -/
theorem enqueuePacket (i : SendsInOrder Ts s h todo) (packet : Packet Ts) (priority : Bool)
    (plain : requestKey Ts packet.content = none) :
    SendsInOrder Ts (s.transmit (s.tx.enqueuePacket packet priority) (.enqueued packet.content)).1
      (h ++ (s.transmit (s.tx.enqueuePacket packet priority) (.enqueued packet.content)).2) todo := by
  apply i.transmit
  · exact s.tx.enqueuePacket_enqueues packet priority
  · exact fun _ => ⟨rfl, rfl⟩
  · intro e k pushed key
    obtain ⟨fits, frame⟩ := TxPath.enqueuePacket_frame pushed
    rw [frame, frameKey_frameBytes _ fits, plain] at key
    cases key

/-- A request is enqueued, or once more. -/
theorem enqueueEntry {e : RetransmitEntry} (i : SendsInOrder Ts s h (e :: todo)) :
    SendsInOrder Ts (s.enqueueEntry e).1 (h ++ (s.enqueueEntry e).2) todo := by
  have rest : SendsInOrder Ts s h todo :=
    ⟨i.one, i.pending, i.cached, fun x member => i.todo x (List.mem_cons_of_mem _ member), i.order⟩
  obtain ⟨sends, last⟩ := i.todo e List.mem_cons_self
  apply rest.transmit
  · exact s.tx.enqueuePendingFrame_enqueues Ts e.requestCmd e.requestBytes
  · exact fun _ => ⟨rfl, rfl⟩
  · intro entry k pushed key
    obtain ⟨packet, cmd, bytes, fits, frame⟩ := TxPath.enqueuePendingFrame_frame pushed
    rw [frame, frameKey_frameBytes _ fits] at key
    rw [sends.key cmd bytes key]
    exact last

theorem send (i : SendsInOrder Ts s h todo) (now : Time) (args : SendArgs Ts)
    (once : RegisteredOnce (sessionLog (h ++ (s.send now args).2))) :
    SendsInOrder Ts (s.send now args).1 (h ++ (s.send now args).2) todo := by
  simp only [ProtocolStack.send, ReliableSession.takeTxId] at once ⊢
  generalize txId : s.session.nextTxId = t at once ⊢
  have log : sessionLog (h ++ [.offered ⟨(args.registration t).requestCmd, (args.registration t).requestBytes⟩,
      .session (.registered (args.registration t))]) = sessionLog h ++ [.registered (args.registration t)] :=
        sessionLog_append h _
  have handed : handedKeys (sessionLog h ++ [.registered (args.registration t)]) = handedKeys (sessionLog h) := by
    rw [handedKeys_append]
    exact List.append_nil _
  rw [log] at once
  have taken : OneAtATime { s.session with nextTxId := t + 1 } (sessionLog h) := by
    apply i.one.of_eq <;> rfl
  constructor
  · rw [log]
    exact taken.register now _ once
  · intro u p found
    simp only [ReliableSession.registerPending, DenseMap.find?_insertOrAssign] at found
    split at found
    · cases found
      exact ⟨args, rfl, rfl⟩
    · exact i.pending u p found
  · exact i.cached
  · rw [log, handed]
    exact i.todo
  · rw [log, handed, acceptedFrames_append]
    show InOrder _ (frameKeys Ts (acceptedFrames h ++ [] ++ _))
    rw [List.append_nil]
    exact i.order

/-- A response that is no request is cached. -/
theorem cache (i : SendsInOrder Ts s h todo) (cmd : UInt16) (txId : TransactionId) {response : Packet Ts}
    (plain : requestKey Ts response.content = none) (fits : response.traits.frameSize ≤ MAX_FRAME_SIZE)
    {frame : List UInt8} {seq : UInt8} (made : frame = frameBytes seq response.traits.cmd response.bytes) :
    SendsInOrder Ts { s with session := s.session.cacheResponse cmd txId response.traits.cmd frame } h todo := by
  apply i.carry
  · exact .of_eq rfl
  · apply i.one.of_eq <;> rfl
  · intro k c found
    rcases ReliableSession.cacheResponse_cached found with ⟨-, rfl⟩ | ⟨-, before⟩
    · rw [made]
      exact frameKey_take seq fits plain _
    · exact i.cached k c before

/-- The request that is handed out is now the last. -/
theorem handOut (i : SendsInOrder Ts s h []) (now : Time) :
    SendsInOrder Ts { s with session := (s.session.nextOutbound now).1 }
      (h ++ ((s.session.nextOutbound now).2.map fun e => .session (.handedOut e)).toList)
        (s.session.nextOutbound now).2.toList := by
  have logged : ((s.session.nextOutbound now).2.map fun e => StackEvent.session (.handedOut e)).toList =
      ((s.session.nextOutbound now).2.map Event.handedOut).toList.map .session := by
    cases (s.session.nextOutbound now).2 <;> rfl
  rw [logged]
  constructor
  · rw [sessionLog_append, sessionLog_session]
    exact i.one.outbound now
  · intro t p found
    rcases ReliableSession.step_pending s.session (.nextOutbound now) t p found with ⟨q, before, same⟩ |
      ⟨r, registered, -⟩
    · rw [PendingEntry.toRetransmit_eq same]
      exact i.pending t q before
    · obtain ⟨e, -, other⟩ := Option.map_eq_some_iff.mp (Option.mem_toList.mp registered)
      cases other
  · have cache : (s.session.nextOutbound now).1.completedCache = s.session.completedCache :=
      (ReliableSession.step_device (o := .nextOutbound now) rfl).1
    rw [cache]
    exact i.cached
  · intro e member
    have out := Option.mem_toList.mp member
    rw [sessionLog_append, sessionLog_session, handedKeys_append, out]
    obtain ⟨t, p, found, rfl⟩ := ReliableSession.nextOutbound_mem out
    exact ⟨i.pending t p found, List.getLast?_concat⟩
  · rw [sessionLog_append, sessionLog_session, handedKeys_append, acceptedFrames_append, acceptedFrames_session,
      List.append_nil]
    exact i.order.extend _

/-- The frame in front of the queue is sent, or stays. -/
theorem drainTx (i : SendsInOrder Ts s h []) (sendFrame : Option Bool) :
    SendsInOrder Ts (s.drainTx sendFrame).1 (h ++ (s.drainTx sendFrame).2) [] := by
  have queue := s.tx.drainTx_queue sendFrame
  have silent : sessionLog (s.drainTx sendFrame).2 = [] := by
    show sessionLog ((s.tx.drainTx sendFrame).2.map StackEvent.accepted).toList = []
    cases (s.tx.drainTx sendFrame).2 <;> rfl
  have sent : acceptedFrames (s.drainTx sendFrame).2 = (s.tx.drainTx sendFrame).2.toList.map (·.frame) := by
    show acceptedFrames ((s.tx.drainTx sendFrame).2.map StackEvent.accepted).toList = _
    cases (s.tx.drainTx sendFrame).2 <;> rfl
  have log : sessionLog (h ++ (s.drainTx sendFrame).2) = sessionLog h := by
    rw [sessionLog_append, silent, List.append_nil]
  constructor
  · rw [log]
    exact i.one
  · exact i.pending
  · exact i.cached
  · rw [log]
    exact i.todo
  · rw [log, acceptedFrames_append, sent, List.append_assoc]
    show InOrder _ (frameKeys Ts (acceptedFrames h ++ (_ ++ (s.tx.drainTx sendFrame).1.queue.map (·.frame))))
    rw [← List.map_append, queue]
    exact i.order

/-! ### Runs -/

/-- The parts of every operation keep the order. -/
theorem keeps (Ts : PacketTypes) :
    KeepsParts Act.Plain (fun h => RegisteredOnce (sessionLog h)) (fun _ _ => True)
      (fun s h _ todo => SendsInOrder Ts s h todo) where
  closed h ev once := by
    rw [sessionLog_append] at once
    exact once.left
  note s h due todo e isNote i := by
    obtain ⟨silent, unsent⟩ := note_silent isNote
    apply i.extend
    · rw [silent]
      exact fun e => List.not_mem_nil
    · exact unsent
  handlers s h due todo handlers i := ⟨i.one, i.pending, i.cached, i.todo, i.order⟩
  setNextTxId s h due todo nextTxId i := by
    apply i.carry
    · exact .of_eq rfl
    · apply i.one.of_eq <;> rfl
    · exact i.cached
  send s h due todo now args _ i once := i.send now args once
  enqueuePacket s h due todo packet priority sendable _ i := by
    apply i.enqueuePacket packet priority
    rcases sendable with plain | ⟨cmd, txId, plain⟩ | ⟨cmd, txId, rfl⟩
    · exact plain
    · exact plain
    · exact ackOf_plain cmd txId
  cache s h due todo cmd txId response entry seq plain fits _ _ made i := i.cache cmd txId plain fits made
  onAck s h now txId i := by
    have cache : (s.session.onAck now txId).completedCache = s.session.completedCache :=
      (ReliableSession.step_device (o := .onAck now txId) rfl).1
    apply i.carry (s.session.onAck_carries now txId) (i.one.ack now txId)
    rw [cache]
    exact i.cached
  onResponse s h cmd txId data i := by
    have cache : (s.session.onResponse cmd txId data).1.completedCache = s.session.completedCache :=
      (ReliableSession.step_device (o := .onResponse cmd txId data) rfl).1
    have answered : SendsInOrder Ts { s with session := (s.session.onResponse cmd txId data).1 } h [] := by
      apply i.carry (s.session.onResponse_carries cmd txId data) (i.one.response cmd txId data)
      rw [cache]
      exact i.cached
    apply answered.extendSession
    intro e member
    obtain ⟨_, -, -, same⟩ := ReliableSession.mem_onResponse member
    cases same
  onRequest s h cmd txId i := by
    have eq := s.session.onRequest_eq cmd txId
    have requested : SendsInOrder Ts { s with session := (s.session.onRequest cmd txId).1 } h [] := by
      rw [eq]
      apply i.carry
      · exact .of_eq rfl
      · apply i.one.of_eq <;> rfl
      · exact i.cached
    apply requested.extendSession [.requested cmd txId _]
    intro e member
    cases List.mem_singleton.mp member
  replay s h cmd txId cached found i := by
    apply i.transmit (TxPath.enqueuePrebuiltFrame_enqueues _ _ _)
    · exact fun _ => ⟨rfl, rfl⟩
    · intro e k pushed key
      rw [TxPath.enqueuePrebuiltFrame_frame pushed, i.cached _ cached found] at key
      cases key
  handOut s h now i := i.handOut now
  enqueue _ _ _ _ _ i := i.enqueueEntry
  pollLoop s h now clock i := by
    have carried : SendsInOrder Ts { s with session := (s.session.pollLoop now clock).1 } h [] := by
      apply i.carry (s.session.pollLoop_carries now clock) (i.one.poll_loop now clock)
      exact i.cached
    refine ⟨carried.one, carried.pending, carried.cached, fun e retry => ?_, carried.order⟩
    obtain ⟨t, p, found, flag, rfl⟩ := ReliableSession.mem_retries retry
    exact ⟨i.pending t p found, i.one.current t p found flag⟩
  error s h txId due todo i := by
    apply i.extendSession [.error txId .timeout]
    intro e member
    cases List.mem_singleton.mp member
  skip _ _ _ _ _ i := i
  retransmitted s h todo i := by
    have quiet : ∀ e, .handedOut e ∉ todo.map Event.retransmitted := by
      intro e member
      obtain ⟨_, -, same⟩ := List.mem_map.mp member
      cases same
    have logged := i.extendSession _ quiet
    rwa [List.map_map] at logged
  drainTx _ _ sendFrame i := i.drainTx sendFrame

end SendsInOrder

end FloridUsb.Stack
