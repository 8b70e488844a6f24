import FloridUsb.Session.CacheBound
import FloridUsb.Session.Deadline
import FloridUsb.Stack.Unsolicited

/-!
# One turn at a time

What the operations of a session and of a stack come to when one request is out and the transmit
queue has room: the request goes out, a new request is acknowledged and handled, a repeated one is
acknowledged and answered from the cache, a due request is retransmitted or expires.
-/

namespace FloridUsb.Session
set_option autoImplicit false

open Lib ReliableSession

/-! ### The ring -/

namespace IdRingBuffer

variable {T : Type} {k : Nat} [DecidableEq T] {r : IdRingBuffer T k} {id x : T}

/-- A ring that has been asked for a key holds it. -/
theorem mem_testAndInsert_self (r : IdRingBuffer T k) (id : T) : id ∈ (r.testAndInsert id).1.ids := by
  by_cases seen : id ∈ r.ids
  · rw [testAndInsert_seen seen]
    exact seen
  · have place : r.writeIdx < r.ids.length := by
      rw [r.length_ids]
      exact r.writeIdx_lt
    rw [testAndInsert, if_neg seen]
    exact List.mem_set place id

/-- No other key gets into the ring. -/
theorem mem_of_mem_testAndInsert (member : x ∈ (r.testAndInsert id).1.ids) : x ∈ r.ids ∨ x = id := by
  unfold testAndInsert at member
  split at member
  · exact .inl member
  · exact List.mem_or_eq_of_mem_set member

end IdRingBuffer

/-! ### The cache -/

section Cache

variable {capacity : Nat} {cache : DenseMap DedupKey CompletedResponse} {order : List DedupKey} {k : DedupKey}

/-- The order list loses its oldest keys only. -/
theorem shrink_suffix (capacity : Nat) (cache : DenseMap DedupKey CompletedResponse) (order : List DedupKey) :
    (shrink capacity cache order).2 <:+ order := by
  induction order generalizing cache with
  | nil => exact List.suffix_refl _
  | cons oldest rest ih =>
    rw [shrink]
    split
    · exact (ih _).trans (List.suffix_cons _ _)
    · exact List.suffix_refl _

/-- The newest key stays. -/
theorem shrink_newest (some_ : 0 < capacity) (fresh : k ∉ order) :
    (shrink capacity cache (order ++ [k])).1.find? k = cache.find? k := by
  induction order generalizing cache with
  | nil =>
    rw [List.nil_append, shrink, if_neg (by simp only [List.length_singleton]; omega)]
  | cons oldest rest ih =>
    rw [List.mem_cons, not_or] at fresh
    obtain ⟨other, later⟩ := fresh
    rw [List.cons_append, shrink]
    split
    · rw [ih later, DenseMap.find?_erase_ne _ other]
    · rfl

end Cache

namespace ReliableSession

variable {s : ReliableSession} {cmd responseCmd : UInt16} {t : TransactionId} {bytes : List UInt8} {now : Time}
  {p : PendingEntry}

/-- A response cached for a key that was not cached before is there. -/
theorem cacheResponse_newest (some_ : 0 < s.config.deviceCacheCapacity)
    (fresh : composeDedupKey cmd t ∉ s.completedOrder) :
    (s.cacheResponse cmd t responseCmd bytes).completedCache.find? (composeDedupKey cmd t) =
      some ⟨responseCmd, bytes.take MAX_PACKET_SIZE⟩ := by
  rw [cacheResponse, shrinkDeviceCache]
  exact (shrink_newest some_ fresh).trans (DenseMap.find?_insertOrAssign_self _ _ _)

theorem mem_cacheResponse_order {k : DedupKey} (member : k ∈ (s.cacheResponse cmd t responseCmd bytes).completedOrder) :
    k ∈ s.completedOrder ∨ k = composeDedupKey cmd t := by
  have old := (shrink_suffix _ _ _).subset member
  rwa [List.mem_append, List.mem_singleton] at old

/-! ### Requests and responses -/

theorem onRequest_new (new : composeDedupKey cmd t ∉ s.seenRequests.ids) :
    (s.onRequest cmd t).2 = { shouldAck := true, isDuplicate := false } := by
  have accepted := IdRingBuffer.testAndInsert_new new
  generalize (s.seenRequests.testAndInsert (composeDedupKey cmd t)).1 = ring at accepted
  simp only [onRequest, accepted]

theorem onRequest_repeated (seen : composeDedupKey cmd t ∈ s.seenRequests.ids) :
    s.onRequest cmd t =
      (s, { shouldAck := true, isDuplicate := true, cached := s.completedCache.find? (composeDedupKey cmd t) }) := by
  simp only [onRequest, IdRingBuffer.testAndInsert_seen seen]

/-- The first response to a pending request, of its type. -/
theorem onResponse_first (new : composeDedupKey cmd t ∉ s.seenResponses.ids) (found : s.pendingByTx.find? t = some p)
    (fits : p.responseCmd = cmd) (callback : p.onResponse = true) :
    s.onResponse cmd t bytes =
      ({ s with
          seenResponses := (s.seenResponses.testAndInsert (composeDedupKey cmd t)).1
          inflightCount := countWithout s.inflightCount p
          pendingByTx := s.pendingByTx.erase t }, [.response p.txId cmd bytes]) := by
  have accepted := IdRingBuffer.testAndInsert_new new
  generalize (s.seenResponses.testAndInsert (composeDedupKey cmd t)).1 = ring at accepted ⊢
  simp only [onResponse, accepted, found, fits, callback, and_self, if_true]

/-! ### Handing out -/

/-- Nothing is handed out while the window is full, or when nothing is queued. -/
theorem nextOutbound_stays (stays : s.config.windowSize ≤ s.inflightCount ∨ s.outboundQueue = []) (now : Time) :
    s.nextOutbound now = (s, none) := by
  cases queue : s.outboundQueue with
  | nil =>
    rw [nextOutbound, queue, pump, ← queue]
  | cons t rest =>
    have full : ¬ s.inflightCount < s.config.windowSize := by
      rcases stays with full | none
      · omega
      · rw [queue] at none
        cases none
    rw [nextOutbound, queue, pump, if_neg full, ← queue]

theorem nextOutbound_next {rest : List TransactionId} (queue : s.outboundQueue = t :: rest)
    (room : s.inflightCount < s.config.windowSize) (found : s.pendingByTx.find? t = some p) (now : Time) :
    s.nextOutbound now =
      ({ s with
          outboundQueue := rest
          pendingByTx := s.pendingByTx.insertOrAssign t { p with inflight := true, deadline := now + p.timeout }
          inflightCount := s.inflightCount + 1 }, some p.toRetransmit) := by
  simp only [nextOutbound, queue, pump, room, if_true, found]
  rfl

/-! ### The poll of one due request -/

/-- The loop of `poll` collects from the one entry that is due. -/
theorem pollLoop_one (clock : TransactionId → Time) (found : s.pendingByTx.find? t = some p)
    (alone : ∀ u q, s.pendingByTx.find? u = some q → u ≠ t → q.isDue now = false) :
    (s.pollLoop now clock).2 = pollCollects now { inflightCount := s.inflightCount } (t, p) := by
  obtain ⟨visits, perm, -, acc⟩ := pollLoop_visits s now clock
  have here := DenseMap.filter_key found perm
  have idle : ∀ e ∈ visits, e.1 ≠ t → e.2.isDue now = false := fun e member other =>
    alone e.1 e.2 (DenseMap.find?_eq_some.mpr (perm.mem_iff.mp member)) other
  have others : ∀ acc, visits.foldl (pollCollects now) acc =
      (visits.filter fun e => decide (e.1 = t)).foldl (pollCollects now) acc := by
    clear here acc perm
    induction visits with
    | nil => exact fun _ => rfl
    | cons e visits ih =>
      intro acc
      have later := ih fun d member => idle d (List.mem_cons_of_mem _ member)
      by_cases same : e.1 = t
      · rw [List.filter_cons_of_pos (by simpa using same)]
        exact later _
      · rw [List.filter_cons_of_neg (by simpa using same), List.foldl_cons,
          pollCollects_idle (idle e List.mem_cons_self same)]
        exact later _
  rw [acc, others, here]
  rfl

end ReliableSession

end FloridUsb.Session

namespace FloridUsb.Stack
set_option autoImplicit false

open Lib Rpl Session

/-! ### The transmit queue -/

namespace TxPath

variable {Ts : PacketTypes} {s : TxPath}

theorem enqueuePrebuiltFrame_fits {frame : List UInt8} (priority : Bool) (room : s.queue.length < TX_QUEUE_CAP)
    (short : frame.length ≤ MAX_FRAME_SIZE) :
    s.enqueuePrebuiltFrame frame priority =
      ({ s with queue := s.queue ++ [⟨frame, isTelemetryFrame frame⟩] }, some ⟨frame, isTelemetryFrame frame⟩) := by
  rw [enqueuePrebuiltFrame, if_neg (by omega)]
  dsimp only
  rw [if_neg (by omega)]
  rfl

/-- The entry a packet is enqueued as, under the next sequence number. -/
def entryOf (s : TxPath) (packet : Packet Ts) : TxEntry :=
  ⟨frameBytes s.serializer.sequence packet.traits.cmd packet.bytes, isTelemetryCmd packet.traits.cmd⟩

theorem serialize_fits {packet : Packet Ts} (fits : packet.traits.frameSize ≤ MAX_FRAME_SIZE) :
    serializePacketToFrame s.serializer packet = some ((s.entryOf packet).frame, ⟨s.serializer.sequence + 1⟩) := by
  rw [serializePacketToFrame, Serializer.serialize, if_neg (by omega)]
  rfl

theorem enqueuePacket_fits {packet : Packet Ts} (priority : Bool) (room : s.queue.length < TX_QUEUE_CAP)
    (fits : packet.traits.frameSize ≤ MAX_FRAME_SIZE) :
    s.enqueuePacket packet priority =
      (⟨⟨s.serializer.sequence + 1⟩, s.queue ++ [s.entryOf packet]⟩, some (s.entryOf packet)) := by
  have short : (s.entryOf packet).frame.length ≤ MAX_FRAME_SIZE := by
    rw [entryOf, length_frameBytes_packet]
    exact fits
  have kind : isTelemetryFrame (s.entryOf packet).frame = (s.entryOf packet).telemetry :=
    isTelemetryFrame_frameBytes _ _ _
  have placed := enqueuePrebuiltFrame_fits
      (s := { s with serializer := ⟨s.serializer.sequence + 1⟩ }) priority room short
  rw [enqueuePacket, serialize_fits fits]
  dsimp only
  rw [placed, kind]

theorem enqueuePendingFrame_fits {packet : Packet Ts} (room : s.queue.length < TX_QUEUE_CAP)
    (fits : packet.traits.frameSize ≤ MAX_FRAME_SIZE) :
    s.enqueuePendingFrame Ts packet.traits.cmd packet.bytes =
      (⟨⟨s.serializer.sequence + 1⟩, s.queue ++ [s.entryOf packet]⟩, some (s.entryOf packet)) := by
  rw [enqueuePendingFrame, if_neg (by omega)]
  dsimp only
  rw [serializeRawToFrame_packet, serialize_fits fits]
  rfl

end TxPath

namespace ProtocolStack

variable {Ts : PacketTypes} {s : ProtocolStack Ts}

/-- The stack after a packet has been enqueued. -/
def enqueued (s : ProtocolStack Ts) (packet : Packet Ts) : ProtocolStack Ts :=
  { s with tx := ⟨⟨s.tx.serializer.sequence + 1⟩, s.tx.queue ++ [s.tx.entryOf packet]⟩ }

/-- The stack after a frame that was kept has been enqueued. -/
def requeued (s : ProtocolStack Ts) (frame : List UInt8) : ProtocolStack Ts :=
  { s with tx := { s.tx with queue := s.tx.queue ++ [⟨frame, isTelemetryFrame frame⟩] } }

theorem transmit_fits (packet : Packet Ts) (priority : Bool) (room : s.tx.queue.length < TX_QUEUE_CAP)
    (fits : packet.traits.frameSize ≤ MAX_FRAME_SIZE) (event : TxEntry → StackEvent) :
    s.transmit (s.tx.enqueuePacket packet priority) event = (s.enqueued packet, [event (s.tx.entryOf packet)]) := by
  rw [TxPath.enqueuePacket_fits priority room fits]
  rfl

theorem ackOf_fits (cmd : UInt16) (t : TransactionId) : (ackOf Ts cmd t).traits.frameSize ≤ MAX_FRAME_SIZE := by
  show ackPacket.frameSize ≤ MAX_FRAME_SIZE
  decide

/-! ### The device -/

section Device

variable {cmd : UInt16} {data : List UInt8} {t : TransactionId}

/-- A new request is acknowledged and goes to its handler. -/
theorem handleRequestPacket_new {handler : HandlerId} (low : cmd < 0x6300) (read : extractTxIdFromRaw Ts cmd data = t)
    (reliable : t ≠ 0) (new : composeDedupKey cmd t ∉ s.session.seenRequests.ids)
    (handled : s.handlers.find? cmd = some (some handler)) (room : s.tx.queue.length < TX_QUEUE_CAP) :
    s.handleRequestPacket cmd data =
      (enqueued { s with session := (s.session.onRequest cmd t).1 } (ackOf Ts cmd t),
        [.session (.requested cmd t (s.session.onRequest cmd t).2), .offered (ackOf Ts cmd t).content,
          .enqueued (ackOf Ts cmd t).content (s.tx.entryOf (ackOf Ts cmd t)), .handler handler cmd t data]) := by
  have result := ReliableSession.onRequest_new new
  have acked := transmit_fits (s := { s with session := (s.session.onRequest cmd t).1 }) (ackOf Ts cmd t) true room
    (ackOf_fits cmd t) (.enqueued (ackOf Ts cmd t).content)
  simp only [handleRequestPacket, read, low, not_true_eq_false, if_false, reliable, acked, result, Bool.false_eq_true,
    invoke_some handled]
  rfl

/-- A request that was answered is acknowledged and answered again from the cache. -/
theorem handleRequestPacket_repeated {cached : CompletedResponse} (low : cmd < 0x6300)
    (read : extractTxIdFromRaw Ts cmd data = t) (reliable : t ≠ 0)
    (seen : composeDedupKey cmd t ∈ s.session.seenRequests.ids)
    (found : s.session.completedCache.find? (composeDedupKey cmd t) = some cached)
    (some_ : 0 < cached.responseBytes.length) (short : cached.responseBytes.length ≤ MAX_FRAME_SIZE)
    (room : s.tx.queue.length + 1 < TX_QUEUE_CAP) :
    s.handleRequestPacket cmd data =
      ((s.enqueued (ackOf Ts cmd t)).requeued cached.responseBytes,
        [.session (.requested cmd t (s.session.onRequest cmd t).2), .offered (ackOf Ts cmd t).content,
          .enqueued (ackOf Ts cmd t).content (s.tx.entryOf (ackOf Ts cmd t)),
          .replayed cmd t ⟨cached.responseBytes, isTelemetryFrame cached.responseBytes⟩]) := by
  have result := ReliableSession.onRequest_repeated seen
  have acked := TxPath.enqueuePacket_fits true (Nat.lt_of_succ_lt room) (@ackOf_fits Ts cmd t)
  have after : (s.enqueued (ackOf Ts cmd t)).tx.queue.length < TX_QUEUE_CAP := by
    rw [enqueued, List.length_append]
    exact room
  have again : TxPath.enqueuePrebuiltFrame ⟨⟨s.tx.serializer.sequence + 1⟩,
      s.tx.queue ++ [s.tx.entryOf (ackOf Ts cmd t)]⟩ cached.responseBytes true = _ :=
    TxPath.enqueuePrebuiltFrame_fits true after short
  simp only [handleRequestPacket, read, low, not_true_eq_false, if_false, reliable, result, if_true, found, some_,
    transmit, acked, again]
  rfl

/-- A response is enqueued and cached. -/
theorem sendResponseAndCache_fits {requestCmd : UInt16} {response : Packet Ts} (room : s.tx.queue.length < TX_QUEUE_CAP)
    (fits : response.traits.frameSize ≤ MAX_FRAME_SIZE) :
    s.sendResponseAndCache requestCmd t response =
      ({ s.enqueued response with
          session := s.session.cacheResponse requestCmd t response.traits.cmd (s.tx.entryOf response).frame },
        [.offered response.content, .enqueued response.content (s.tx.entryOf response)]) := by
  have placed := TxPath.enqueuePacket_fits true room fits
  rw [TxPath.enqueuePacket, TxPath.serialize_fits fits] at placed
  dsimp only at placed
  simp only [sendResponseAndCache, TxPath.serialize_fits fits, placed]
  rfl

end Device

/-! ### The host -/

section Host

variable {packet : Packet Ts} {t : TransactionId} {p : PendingEntry} {now : Time}

theorem enqueueEntry_fits {e : RetransmitEntry} (cmd : e.requestCmd = packet.traits.cmd)
    (bytes : e.requestBytes = packet.bytes) (room : s.tx.queue.length < TX_QUEUE_CAP)
    (fits : packet.traits.frameSize ≤ MAX_FRAME_SIZE) :
    s.enqueueEntry e = (s.enqueued packet, [.enqueued ⟨e.requestCmd, e.requestBytes⟩ (s.tx.entryOf packet)]) := by
  rw [enqueueEntry, cmd, bytes, TxPath.enqueuePendingFrame_fits room fits]
  rfl

/-- Nothing goes out while the window is full, or when nothing is queued. -/
theorem handleSessionOutbound_stays
    (stays : s.session.config.windowSize ≤ s.session.inflightCount ∨ s.session.outboundQueue = [])
    (clock : Nat → Time) :
    s.handleSessionOutbound clock = (s, []) := by
  have still := ReliableSession.nextOutbound_stays stays (clock s.session.outboundQueue.length)
  simp only [handleSessionOutbound, outboundLoop, still]

/-- The next request goes out, and fills the window. -/
theorem handleSessionOutbound_next {rest : List TransactionId} (queue : s.session.outboundQueue = t :: rest)
    (window : s.session.config.windowSize = s.session.inflightCount + 1)
    (found : s.session.pendingByTx.find? t = some p) (cmd : p.requestCmd = packet.traits.cmd)
    (bytes : p.requestBytes = packet.bytes) (room : s.tx.queue.length < TX_QUEUE_CAP)
    (fits : packet.traits.frameSize ≤ MAX_FRAME_SIZE) (clock : Nat → Time) :
    ∃ deadline, s.handleSessionOutbound clock =
      ({ s.enqueued packet with
          session := { s.session with
            outboundQueue := rest
            pendingByTx := s.session.pendingByTx.insertOrAssign t { p with inflight := true, deadline := deadline }
            inflightCount := s.session.inflightCount + 1 } },
        [.session (.handedOut p.toRetransmit),
          .enqueued ⟨p.requestCmd, p.requestBytes⟩ (s.tx.entryOf packet)]) := by
  have room' : s.session.inflightCount < s.session.config.windowSize := by omega
  have handed := ReliableSession.nextOutbound_next queue room' found (clock (rest.length + 1))
  refine ⟨clock (rest.length + 1) + p.timeout, ?_⟩
  generalize same : ({ s.session with
      outboundQueue := rest
      pendingByTx := s.session.pendingByTx.insertOrAssign t
        { p with inflight := true, deadline := clock (rest.length + 1) + p.timeout }
      inflightCount := s.session.inflightCount + 1 } : ReliableSession) = session at handed
  have full : session.config.windowSize ≤ session.inflightCount := by
    rw [← same]
    exact Nat.le_of_eq window
  have placed := enqueueEntry_fits (s := { s with session := session }) (e := p.toRetransmit) cmd bytes room fits
  have still := ReliableSession.nextOutbound_stays (.inl full) (clock rest.length)
  simp only [handleSessionOutbound, queue, List.length_cons, outboundLoop, handed, placed, List.isEmpty_cons,
    Bool.false_eq_true, if_false, enqueued, still]
  rfl

/-- The one due request is sent again. -/
theorem handleSessionRetries_retry (clock : TransactionId → Time) (callbacks : TransactionId → List (Act Ts))
    (found : s.session.pendingByTx.find? t = some p)
    (alone : ∀ u q, s.session.pendingByTx.find? u = some q → u ≠ t → q.isDue now = false) (due : p.isDue now = true)
    (left : p.expires now = false) (cmd : p.requestCmd = packet.traits.cmd) (bytes : p.requestBytes = packet.bytes)
    (room : s.tx.queue.length < TX_QUEUE_CAP) (fits : packet.traits.frameSize ≤ MAX_FRAME_SIZE) :
    s.handleSessionRetries now clock callbacks =
      ({ s.enqueued packet with session := (s.session.pollLoop now clock).1 },
        [.session (.retransmitted p.toRetransmit),
          .enqueued ⟨p.requestCmd, p.requestBytes⟩ (s.tx.entryOf packet)]) := by
  have collected := ReliableSession.pollLoop_one clock found alone
  have retries : (s.session.pollLoop now clock).2 = ⟨s.session.inflightCount, [p.toRetransmit], []⟩ := by
    rcases ReliableSession.pollKeeps_cases now clock (t, p) with ⟨idle, -, -⟩ | ⟨expired, -, -⟩ | ⟨-, -, -, collects⟩
    · rw [due] at idle
      cases idle
    · rw [left] at expired
      cases expired
    · rw [collected, collects]
      rfl
  have placed := enqueueEntry_fits (s := { s with session := (s.session.pollLoop now clock).1 }) (e := p.toRetransmit)
    cmd bytes room fits
  simp only [handleSessionRetries, retries, runErrorCallbacks, enqueueAll, placed]
  rfl

/-- The one due request has no retry left. -/
theorem handleSessionRetries_expiry (clock : TransactionId → Time)
    (found : s.session.pendingByTx.find? t = some p)
    (alone : ∀ u q, s.session.pendingByTx.find? u = some q → u ≠ t → q.isDue now = false)
    (expired : p.expires now = true) (callback : p.onError = true) :
    s.handleSessionRetries now clock (fun _ => []) =
      ({ s with session := (s.session.pollLoop now clock).1 }, [.session (.error p.txId .timeout)]) := by
  have collected := ReliableSession.pollLoop_one clock found alone
  have callbacks : (s.session.pollLoop now clock).2 = ⟨s.session.inflightCount - 1, [], [(p.txId, true)]⟩ := by
    rcases ReliableSession.pollKeeps_cases now clock (t, p) with ⟨idle, -, -⟩ | ⟨-, -, collects⟩ | ⟨-, lives, -, -⟩
    · rw [PendingEntry.expires_of_idle idle] at expired
      cases expired
    · rw [collected, collects, callback]
      rfl
    · rw [expired] at lives
      cases lives
  simp only [handleSessionRetries, callbacks, runErrorCallbacks, enqueueAll]
  rfl

end Host

end ProtocolStack

end FloridUsb.Stack
