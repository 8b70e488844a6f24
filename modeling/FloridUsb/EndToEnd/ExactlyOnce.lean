import FloridUsb.EndToEnd.Following
import FloridUsb.Lib.Simulation
import FloridUsb.Stack.Numbering

/-!
# Exactly once, in order, over a line that loses

With a window of one host, line and device simulate the machine of `Lib.StopAndWait`. So the
callbacks of the host come in the order of the requests, each with the response to its request or
with a timeout; no handler runs twice for a request; and a request that times out has lost more
frames than it has retries.
-/

namespace FloridUsb.EndToEnd
set_option autoImplicit false

open Lib Rpl Session Stack

/-! ### The simulation -/

section Simulation

variable {Ts : PacketTypes} (service : Service Ts) (handlers : DenseMap UInt16 (Option HandlerId))

def retriesOf (r : Registration) : Nat := r.maxRetries.toNat

/-- What is observed of an event of the stop-and-wait machine. -/
def told : StopAndWait.Event Registration → Observed
  | .queued r => .registered r
  | .lost => .lost
  | .served r => .ran ⟨r.requestCmd, r.txId, r.requestBytes⟩
  | .answered r => .callback r.txId (replyTo service handlers r)
  | .failed r => .callback r.txId none

/-- What a step makes of an exchange is what operations of the stop-and-wait machine do. -/
def Told (x : Exchange Ts) (a : StopAndWait.State Registration) (r : Exchange Ts × List ExchangeEvent) : Prop :=
  ∃ ops, ((StopAndWait.stopAndWait retriesOf).trace a ops).map (told service handlers) = observe r.2 ∧
    Takes x.host.session r.1.host.session (ids (StopAndWait.queued ((StopAndWait.stopAndWait retriesOf).trace a ops))) ∧
    Follows service handlers r.1 ((StopAndWait.stopAndWait retriesOf).exec a ops)

variable {service handlers} {x : Exchange Ts} {a : StopAndWait.State Registration}
  {r : Exchange Ts × List ExchangeEvent}

theorem Told.nothing (silent : observe r.2 = []) (next : r.1.host.session.nextTxId = x.host.session.nextTxId)
    (follows : Follows service handlers r.1 a) : Told service handlers x a r :=
  ⟨[], silent.symm, .inl ⟨rfl, next⟩, follows⟩

theorem Told.one (o : StopAndWait.Op Registration)
    (same : (StopAndWait.step retriesOf a o).2.map (told service handlers) = observe r.2)
    (takes : Takes x.host.session r.1.host.session (ids (StopAndWait.queued (StopAndWait.step retriesOf a o).2)))
    (follows : Follows service handlers r.1 (StopAndWait.step retriesOf a o).1) : Told service handlers x a r := by
  have trace : (StopAndWait.stopAndWait retriesOf).trace a [o] = (StopAndWait.step retriesOf a o).2 := by
    rw [Machine.trace, Machine.trace_nil, List.append_nil]
    rfl
  refine ⟨[o], ?_, ?_, follows⟩
  · rw [trace]
    exact same
  · rw [trace]
    exact takes

/-- An operation that queues nothing takes no number. -/
theorem Told.other (o : StopAndWait.Op Registration) (other : o.queued? = none)
    (same : (StopAndWait.step retriesOf a o).2.map (told service handlers) = observe r.2)
    (next : r.1.host.session.nextTxId = x.host.session.nextTxId)
    (follows : Follows service handlers r.1 (StopAndWait.step retriesOf a o).1) : Told service handlers x a r := by
  apply Told.one o same _ follows
  rw [StopAndWait.queued_step retriesOf a other]
  exact .inl ⟨rfl, next⟩

end Simulation

theorem Exchange.hostStep_quiet {Ts : PacketTypes} {x : Exchange Ts} {o : StackOp Ts} {host : ProtocolStack Ts}
    {ev : List StackEvent} (done : (stack Ts).step x.host o = (host, ev)) (silent : acceptedFrames ev = []) :
    x.hostStep o = ({ x with host := host }, ev.map .host) := by
  rw [Exchange.hostStep, done, silent, List.append_nil]

/-- The frame that leaves the queue is the one that `send_frame` takes. -/
theorem drained (s : TxPath) (sendFrame : Option Bool) :
    acceptedFrames ((s.drainTx sendFrame).2.map StackEvent.accepted).toList ++
      (s.drainTx sendFrame).1.queue.map (·.frame) = s.queue.map (·.frame) := by
  unfold TxPath.drainTx
  split
  · rename_i entry queue front
    rw [front]
    rfl
  · rfl

/-- The frame of a packet is heard as its content. -/
theorem heard_packet {Ts : PacketTypes} (seq : UInt8) {packet : Packet Ts}
    (fits : packet.traits.frameSize ≤ MAX_FRAME_SIZE) :
    heard Ts (frameBytes seq packet.traits.cmd packet.bytes) = some packet.content := by
  simp only [MAX_FRAME_SIZE] at fits
  have known : packet.content.known Ts = true := by
    show (Ts.find packet.traits.cmd).isSome = true
    rw [PacketTypes.find_mem packet.mem]
    rfl
  rw [heard, readFrame_frameBytes seq packet (by omega), Option.filter_some, if_pos known]

theorem answerTo_eq_some {Ts : PacketTypes} {service : Service Ts} {handlers : DenseMap UInt16 (Option HandlerId)}
    {cmd : UInt16} {t : TransactionId} {data : List UInt8} {reply : Packet Ts}
    (answer : answerTo service handlers cmd t data = some reply) :
    ∃ handler, handlers.find? cmd = some (some handler) ∧ service handler cmd t data = reply := by
  unfold answerTo at answer
  split at answer
  · rename_i handler found
    exact ⟨handler, found, Option.some.inj answer⟩
  · cases answer

/-- A request that is enqueued while nothing is on the way. -/
theorem Exchange.asks {Ts : PacketTypes} {service : Service Ts} {handlers : DenseMap UInt16 (Option HandlerId)}
    {x : Exchange Ts} (out : x.out = []) (back : x.back = []) {r : Registration} {packet : Packet Ts}
    (cmd : packet.traits.cmd = r.requestCmd) (bytes : packet.bytes = r.requestBytes) (session : ReliableSession) :
    OnTheWay service handlers r .asking
      (Exchange.out { x with host := { x.host.enqueued packet with session := session } }) x.back := by
  obtain ⟨wire, queue⟩ := List.append_eq_nil_iff.mp out
  refine ⟨⟨(x.host.tx.entryOf packet).frame, ?_, x.host.tx.serializer.sequence, ?_⟩, back⟩
  · show x.toDevice ++ (x.host.tx.queue ++ [x.host.tx.entryOf packet]).map (·.frame) = _
    rw [wire, List.map_append, queue]
    rfl
  · rw [TxPath.entryOf, cmd, bytes]

/-- A frame on its way to the host is an acknowledgement, or the response, which comes last. -/
theorem OnTheWay.at_back {Ts : PacketTypes} {service : Service Ts} {handlers : DenseMap UInt16 (Option HandlerId)}
    {r : Registration} {place : StopAndWait.Place} {out back : List (List UInt8)}
    (way : OnTheWay service handlers r place out back) {n : Nat} {frame : List UInt8} (there : back[n]? = some frame) :
    (IsAck Ts frame ∧ OnTheWay service handlers r place out (back.eraseIdx n)) ∨
      (place = .answering ∧ IsReply service handlers r frame ∧ out = [] ∧ back.eraseIdx n = back.take n ∧
        ∀ f ∈ back.eraseIdx n, IsAck Ts f) := by
  cases place with
  | asking =>
    obtain ⟨-, rfl⟩ := way
    cases there
  | gone =>
    obtain ⟨none, acks⟩ := way
    exact .inl ⟨acks frame (List.mem_of_getElem? there), none, fun f member => acks f (List.mem_of_mem_eraseIdx member)⟩
  | answering =>
    obtain ⟨none, acks, last, rfl, all, reply⟩ := way
    by_cases early : n < acks.length
    · rw [List.getElem?_append_left early] at there
      left
      refine ⟨all frame (List.mem_of_getElem? there), none, acks.eraseIdx n, last, ?_, ?_, reply⟩
      · exact List.eraseIdx_append_of_lt_length early _
      · exact fun f member => all f (List.mem_of_mem_eraseIdx member)
    · have inside := (List.getElem?_eq_some_iff.mp there).1
      rw [List.length_append, List.length_singleton] at inside
      obtain rfl : n = acks.length := by omega
      rw [List.getElem?_append_right (Nat.le_refl _), Nat.sub_self] at there
      obtain rfl : last = frame := Option.some.inj there
      have erased : (acks ++ [last]).eraseIdx acks.length = acks := by
        rw [List.eraseIdx_append_of_length_le (Nat.le_refl _), Nat.sub_self]
        exact List.append_nil _
      rw [erased, List.take_left]
      exact .inr ⟨rfl, reply, none, rfl, all⟩

namespace Follows

variable {Ts : PacketTypes} {service : Service Ts} {handlers : DenseMap UInt16 (Option HandlerId)} {x : Exchange Ts}
  {a : StopAndWait.State Registration}

theorem init (Ts : PacketTypes) (service : Service Ts) {hostConfig deviceConfig : Config}
    (one : hostConfig.windowSize ≤ 1)
    (capacity : 0 < deviceConfig.deviceCacheCapacity) (handlers : DenseMap UInt16 (Option HandlerId)) :
    Follows service handlers (.init Ts hostConfig deviceConfig handlers) {} := by
  have empty : ∀ cmd t, t ≠ 0 → composeDedupKey cmd t ∉ (IdRingBuffer.init 6 : DedupRingBuffer).ids := by
    intro cmd t some_ member
    exact composeDedupKey_ne_default cmd some_ (List.eq_of_mem_replicate member)
  constructor
  · constructor
    · show (if hostConfig.windowSize = 0 then 1 else hostConfig.windowSize) = 1
      split <;> omega
    · rfl
    · rfl
    · intro r member
      cases member
    · intro r member
      cases member
    · intro c out
      cases out
    · intro t p found
      cases found
    · show ([0, 1] : List TransactionId).Pairwise (· < ·)
      decide
    · intro cmd t some_ member
      exact absurd member (empty cmd t some_)
  · constructor
    · rfl
    · exact capacity
    · intro cmd t some_ known
      rcases known with seen | cached
      · exact absurd seen (empty cmd t some_)
      · cases cached
    · intro c out
      cases out
  · exact fun _ => ⟨rfl, rfl⟩
  · intro c out
    cases out

theorem send (f : Follows service handlers x a) (now : Time) {args : SendArgs Ts}
    (answerable : Answerable service handlers args) (left : x.host.session.nextTxId ≠ 0) :
    Told service handlers x a (x.step service (.send now args)) := by
  have taken : numbersLeft x.host.session = [x.host.session.nextTxId] := if_neg left
  have done := Exchange.hostStep_quiet (x := x) (o := .act (.send now args)) rfl rfl
  rw [Exchange.step, done]
  apply Told.one (.queue (args.registration x.host.session.nextTxId))
  · rfl
  · exact .inr ⟨rfl, left, rfl⟩
  constructor
  · exact f.host.send left now answerable
  · apply f.device.mono
    · intro t below
      have unserved : ids (StopAndWait.State.unserved { a with waiting := a.waiting ++
          [args.registration x.host.session.nextTxId] }) = ids a.unserved ++ [x.host.session.nextTxId] := by
        rw [StopAndWait.State.unserved, ← List.append_assoc, ids_append]
        rfl
      show ∀ u ∈ ids (StopAndWait.State.unserved { a with waiting := a.waiting ++
          [args.registration x.host.session.nextTxId] }) ++ _, t < u
      rw [unserved]
      exact below_left taken rfl below
    · exact fun c out was => ⟨c, out, was, rfl⟩
  · exact f.idle
  · exact f.way

/-- The host does nothing. -/
theorem rests (f : Follows service handlers x a) {o : StackOp Ts} (idle : (stack Ts).step x.host o = (x.host, [])) :
    Told service handlers x a (x.hostStep o) := by
  rw [Exchange.hostStep_quiet idle rfl]
  exact Told.nothing rfl rfl f

theorem outbound (f : Follows service handlers x a) (clock : Nat → Time) :
    Told service handlers x a (x.step service (.outbound clock)) := by
  have count := f.host.count
  have queue := f.host.queue
  obtain ⟨waiting, current⟩ := a
  match waiting, current with
  | _, some c =>
    apply f.rests
    apply ProtocolStack.handleSessionOutbound_stays
    left
    rw [count, f.host.window]
    exact Nat.le_refl _
  | [], none =>
    apply f.rests
    apply ProtocolStack.handleSessionOutbound_stays
    exact .inr queue
  | r :: rest, none =>
    have first : r ∈ StopAndWait.State.requests ⟨r :: rest, none⟩ := List.mem_cons_self
    obtain ⟨p, found, request, -, fresh⟩ := f.host.waiting r List.mem_cons_self
    obtain ⟨packet, cmd, bytes, fits, -⟩ := f.host.packet first
    obtain ⟨out, back⟩ := f.idle rfl
    have room : x.host.tx.queue.length < TX_QUEUE_CAP := by
      rw [List.map_eq_nil_iff.mp (List.append_eq_nil_iff.mp out).2]
      decide
    have window : x.host.session.config.windowSize = x.host.session.inflightCount + 1 := by
      rw [count, f.host.window]
      rfl
    obtain ⟨deadline, done⟩ := ProtocolStack.handleSessionOutbound_next queue window found
      ((congrArg Registration.requestCmd request).trans cmd.symm)
      ((congrArg Registration.requestBytes request).trans bytes.symm) room fits clock
    rw [Exchange.step, Exchange.hostStep_quiet (o := .sessionOutbound clock) done rfl]
    apply Told.other .start rfl
    · rfl
    · rfl
    constructor
    · exact f.host.start request fresh deadline
    · apply f.device.mono
      · exact fun t below => below
      · intro c out was
        cases out
        cases was
    · intro none
      cases none
    · intro c out
      cases out
      exact Exchange.asks out back cmd bytes _

theorem retries (f : Follows service handlers x a) (now : Time) (clock : TransactionId → Time)
    (patient : x.Quiet ∨ ∀ d, x.host.nextWakeTime = some d → now < d) :
    Told service handlers x a (x.step service (.retries now clock)) := by
  by_cases early : ∀ d, x.host.nextWakeTime = some d → now < d
  · exact f.rests (x.host.handleSessionRetries_early early clock _)
  -- what is due is the request that is out, and nothing of it is on the way
  obtain ⟨hostQueue, toDevice, deviceQueue, toHost⟩ := patient.resolve_right early
  have out : x.out = [] := by rw [Exchange.out, toDevice, hostQueue]; rfl
  have back : x.back = [] := by rw [Exchange.back, toHost, deviceQueue]; rfl
  push Not at early
  obtain ⟨d, next, reached⟩ := early
  obtain ⟨⟨t, p, found, flying, rfl⟩, -⟩ := ReliableSession.nextDeadline_eq_some.mp next
  have due : p.isDue now = true := PendingEntry.isDue_iff.mpr ⟨flying, reached⟩
  obtain ⟨⟨r, n, was, place⟩, current, rfl, request, counted⟩ := f.host.flying found flying
  obtain ⟨waiting, current⟩ := a
  cases current
  have gone : place = .gone := by
    have way := f.way _ rfl
    rw [out, back] at way
    cases place with
    | asking =>
      obtain ⟨⟨frame, none, -⟩, -⟩ := way
      cases none
    | answering =>
      obtain ⟨-, acks, frame, none, -⟩ := way
      exact absurd none.symm (by simp)
    | gone => rfl
  subst gone
  have first : r ∈ StopAndWait.State.requests ⟨waiting, some ⟨r, n, was, .gone⟩⟩ := List.mem_cons_self
  have id : p.txId = r.txId := congrArg Registration.txId request
  cases expired : p.expires now with
  | true =>
    obtain ⟨spent, host⟩ := f.host.expire found request counted expired clock
    have callback : p.onError = true := by
      obtain ⟨args, answerable, same⟩ := f.host.sent r first
      rw [show p.onError = r.onError from congrArg Registration.onError request, same]
      exact answerable.onError
    have done := ProtocolStack.handleSessionRetries_expiry clock found (f.host.alone now) expired callback
    rw [id] at done
    rw [Exchange.step, Exchange.hostStep_quiet (o := .sessionRetries now clock fun _ => []) done rfl]
    apply Told.other .retry rfl
    · simp only [StopAndWait.step, retriesOf, spent, if_false]
      rfl
    · rfl
    · simp only [StopAndWait.step, retriesOf, spent, if_false]
      constructor
      · exact host
      · exact f.device.conclude
      · exact fun _ => ⟨out, back⟩
      · intro c out
        cases out
  | false =>
    obtain ⟨left, host⟩ := f.host.retry found request counted due expired clock
    obtain ⟨packet, cmd, bytes, fits, -⟩ := f.host.packet first
    have room : x.host.tx.queue.length < TX_QUEUE_CAP := by
      rw [hostQueue]
      decide
    have done := ProtocolStack.handleSessionRetries_retry clock (fun _ => []) found (f.host.alone now) due expired
      ((congrArg Registration.requestCmd request).trans cmd.symm)
      ((congrArg Registration.requestBytes request).trans bytes.symm) room fits
    rw [Exchange.step, Exchange.hostStep_quiet (o := .sessionRetries now clock fun _ => []) done rfl]
    apply Told.other .retry rfl
    · simp only [StopAndWait.step, retriesOf, left, if_true]
      rfl
    · rfl
    · simp only [StopAndWait.step, retriesOf, left, if_true]
      constructor
      · exact host
      · exact f.device.move
      · intro none
        cases none
      · intro c out
        cases out
        exact Exchange.asks out back cmd bytes _

/-- A frame that `send_frame` takes is still on its way. -/
theorem drainHost (f : Follows service handlers x a) (sendFrame : Option Bool) :
    Told service handlers x a (x.step service (.drainHost sendFrame)) := by
  have silent : observe (x.step service (.drainHost sendFrame)).2 = [] := by
    show observe (((x.host.tx.drainTx sendFrame).2.map StackEvent.accepted).toList.map ExchangeEvent.host) = []
    cases (x.host.tx.drainTx sendFrame).2 <;> rfl
  have out : Exchange.out (x.step service (.drainHost sendFrame)).1 = x.out := by
    show (x.toDevice ++ acceptedFrames ((x.host.tx.drainTx sendFrame).2.map StackEvent.accepted).toList) ++
      (x.host.tx.drainTx sendFrame).1.queue.map (·.frame) = x.toDevice ++ x.host.tx.queue.map (·.frame)
    rw [List.append_assoc, drained]
  apply Told.nothing silent
  · rfl
  constructor
  · exact f.host
  · exact f.device
  · rw [out]
    exact f.idle
  · rw [out]
    exact f.way

theorem drainDevice (f : Follows service handlers x a) (sendFrame : Option Bool) :
    Told service handlers x a (x.step service (.drainDevice sendFrame)) := by
  have whole : x.step service (.drainDevice sendFrame) =
      ({ x with
          device := { x.device with tx := (x.device.tx.drainTx sendFrame).1 }
          toHost := x.toHost ++ acceptedFrames ((x.device.tx.drainTx sendFrame).2.map StackEvent.accepted).toList },
        ((x.device.tx.drainTx sendFrame).2.map StackEvent.accepted).toList.map .device) := by
    show x.deviceStep service (.drainTx sendFrame) = _
    simp only [Exchange.deviceStep, stack, ProtocolStack.step, ProtocolStack.drainTx]
    generalize x.device.tx.drainTx sendFrame = r
    obtain ⟨tx, _ | entry⟩ := r <;> rfl
  have silent : observe (x.step service (.drainDevice sendFrame)).2 = [] := by
    rw [whole]
    cases (x.device.tx.drainTx sendFrame).2 <;> rfl
  have back : Exchange.back (x.step service (.drainDevice sendFrame)).1 = x.back := by
    rw [whole]
    show (x.toHost ++ acceptedFrames ((x.device.tx.drainTx sendFrame).2.map StackEvent.accepted).toList) ++
      (x.device.tx.drainTx sendFrame).1.queue.map (·.frame) = x.toHost ++ x.device.tx.queue.map (·.frame)
    rw [List.append_assoc, drained]
  apply Told.nothing silent
  · rfl
  constructor
  · rw [whole]
    exact f.host
  · rw [whole]
    exact f.device.withTx _
  · rw [back, whole]
    exact f.idle
  · rw [back, whole]
    exact f.way

/-- What reaches the device is the request that is out. -/
theorem asked (f : Follows service handlers x a) {frame : List UInt8} {rest : List (List UInt8)}
    (arrives : x.toDevice = frame :: rest) : ∃ waiting r n was, a = ⟨waiting, some ⟨r, n, was, .asking⟩⟩ ∧ rest = [] ∧
      x.host.tx.queue = [] ∧ IsRequest r frame ∧ x.toHost = [] ∧ x.device.tx.queue = [] := by
  have some_ : x.out ≠ [] := by
    rw [Exchange.out, arrives]
    exact List.cons_ne_nil _ _
  obtain ⟨waiting, current⟩ := a
  match current with
  | none => exact absurd (f.idle rfl).1 some_
  | some ⟨r, n, was, .answering⟩ => exact absurd (f.way _ rfl).1 some_
  | some ⟨r, n, was, .gone⟩ => exact absurd (f.way _ rfl).1 some_
  | some ⟨r, n, was, .asking⟩ =>
    obtain ⟨⟨sent, alone, request⟩, back⟩ := f.way _ rfl
    rw [Exchange.out, arrives, List.cons_append] at alone
    obtain ⟨same, others⟩ := List.cons.inj alone
    obtain ⟨none, queue⟩ := List.append_eq_nil_iff.mp others
    obtain ⟨toHost, deviceQueue⟩ := List.append_eq_nil_iff.mp back
    exact ⟨waiting, r, n, was, rfl, none, List.map_eq_nil_iff.mp queue, same ▸ request, toHost,
      List.map_eq_nil_iff.mp deviceQueue⟩

theorem hearDevice (f : Follows service handlers x a) (now : Time) :
    Told service handlers x a (x.step service (.hearDevice now)) := by
  cases arrives : x.toDevice with
  | nil =>
    have same : x.step service (.hearDevice now) = (x, []) := by
      simp only [Exchange.step, arrives]
    rw [same]
    exact Told.nothing rfl rfl f
  | cons frame rest =>
  obtain ⟨waiting, r, n, was, rfl, rfl, hostQueue, ⟨seq, rfl⟩, toHost, deviceQueue⟩ := f.asked arrives
  have first : r ∈ StopAndWait.State.requests ⟨waiting, some ⟨r, n, was, .asking⟩⟩ := List.mem_cons_self
  obtain ⟨packet, cmd, bytes, fits, read⟩ := f.host.packet first
  obtain ⟨low, request, other, reply, answer, -, -, small⟩ := f.host.answer first
  have arrived : heard Ts (frameBytes seq r.requestCmd r.requestBytes) = some ⟨r.requestCmd, r.requestBytes⟩ := by
    have content := heard_packet seq fits
    rwa [Packet.content, cmd, bytes] at content
  have step : x.step service (.hearDevice now) =
      Exchange.deviceStep service { x with toDevice := [] } (.packet now r.requestCmd r.requestBytes) := by
    simp only [Exchange.step, arrives, arrived]
  rw [step]
  have nonzero : r.txId ≠ 0 := f.host.nonzero _ (List.mem_append_left _ List.mem_cons_self)
  have host : HostHolds service handlers x.host.session ⟨waiting, some ⟨r, n, true, .answering⟩⟩ := f.host.move
  have room : x.device.tx.queue.length + 1 < TX_QUEUE_CAP := by
    rw [deviceQueue]
    decide
  have packetStep : (stack Ts).step x.device (.packet now r.requestCmd r.requestBytes) =
      x.device.handleRequestPacket r.requestCmd r.requestBytes := by
    show x.device.handlePacketInternal now r.requestCmd r.requestBytes = _
    rw [ProtocolStack.handlePacketInternal, if_neg other, if_pos request]
  cases was with
  | false =>
    obtain ⟨handler, handled, made⟩ := answerTo_eq_some answer
    have new := (f.device.unknown nonzero).1
    rw [← f.device.handles] at handled
    have done := ProtocolStack.handleRequestPacket_new low read nonzero new handled (Nat.lt_of_succ_lt room)
    have fits' : reply.traits.frameSize ≤ MAX_FRAME_SIZE := Nat.le_trans small (by decide)
    generalize acked : ProtocolStack.enqueued { x.device with
      session := (x.device.session.onRequest r.requestCmd r.txId).1 } (ackOf Ts r.requestCmd r.txId) = d at done
    have queue : d.tx.queue = [x.device.tx.entryOf (ackOf Ts r.requestCmd r.txId)] := by
      rw [← acked, ProtocolStack.enqueued, deviceQueue]
      rfl
    have afterAck : d.tx.queue.length < TX_QUEUE_CAP := by
      rw [queue, List.length_singleton]
      decide
    have sent := @ProtocolStack.sendResponseAndCache_fits Ts d r.txId r.requestCmd reply afterAck fits'
    obtain ⟨ev, seen, whole⟩ : ∃ ev, observe ev = [.ran ⟨r.requestCmd, r.txId, r.requestBytes⟩] ∧
        Exchange.deviceStep service { x with toDevice := [] } (.packet now r.requestCmd r.requestBytes) =
          ({ x with
              toDevice := []
              device := { d.enqueued reply with
                session := d.session.cacheResponse r.requestCmd r.txId reply.traits.cmd (d.tx.entryOf reply).frame }
              toHost := x.toHost ++ [] }, ev) := by
      simp only [Exchange.deviceStep, packetStep, done, List.filterMap_cons, StackEvent.answers, List.filterMap_nil,
        made, ProtocolStack.runActs, ProtocolStack.act, sent]
      exact ⟨_, rfl, rfl⟩
    rw [whole]
    apply Told.other .serve rfl
    · exact seen.symm
    · rfl
    constructor
    · exact host
    · rw [← acked]
      exact (f.device.serve nonzero (f.host.first_below rfl) answer small _).withTx _
    · intro none
      cases none
    · intro c out
      cases out
      refine ⟨?_, [(x.device.tx.entryOf (ackOf Ts r.requestCmd r.txId)).frame], (d.tx.entryOf reply).frame, ?_, ?_, ?_⟩
      · show [] ++ x.host.tx.queue.map (·.frame) = []
        rw [hostQueue]
        rfl
      · show (x.toHost ++ []) ++ (d.tx.queue ++ [d.tx.entryOf reply]).map (·.frame) = _
        rw [toHost, queue]
        rfl
      · intro frame member
        rw [List.mem_singleton.mp member]
        exact ⟨_, _, _, rfl⟩
      · exact ⟨_, reply, answer, rfl⟩
  | true =>
    obtain ⟨seen, cached, found, seq', reply', answer', frame⟩ := f.device.served _ rfl rfl
    obtain rfl : reply = reply' := Option.some.inj (answer.symm.trans answer')
    have length : cached.responseBytes.length = reply.traits.frameSize := by rw [frame, length_frameBytes_packet]
    have some_ : 0 < cached.responseBytes.length := by
      rw [frame, length_frameBytes]
      omega
    have short : cached.responseBytes.length ≤ MAX_FRAME_SIZE := by
      rw [length]
      exact Nat.le_trans small (by decide)
    have done := ProtocolStack.handleRequestPacket_repeated low read nonzero seen found some_ short room
    obtain ⟨ev, silent, whole⟩ : ∃ ev, observe ev = [] ∧
        Exchange.deviceStep service { x with toDevice := [] } (.packet now r.requestCmd r.requestBytes) =
          ({ x with
              toDevice := []
              device := (x.device.enqueued (ackOf Ts r.requestCmd r.txId)).requeued cached.responseBytes
              toHost := x.toHost ++ [] }, ev) := by
      simp only [Exchange.deviceStep, packetStep, done, List.filterMap_cons, StackEvent.answers, List.filterMap_nil,
        ProtocolStack.runActs]
      exact ⟨_, rfl, rfl⟩
    rw [whole]
    apply Told.other .serve rfl
    · exact silent.symm
    · rfl
    constructor
    · exact host
    · exact DeviceHolds.withTx f.device.move _
    · intro none
      cases none
    · intro c out
      cases out
      refine ⟨?_, [(x.device.tx.entryOf (ackOf Ts r.requestCmd r.txId)).frame], cached.responseBytes, ?_, ?_, ?_⟩
      · show [] ++ x.host.tx.queue.map (·.frame) = []
        rw [hostQueue]
        rfl
      · show (x.toHost ++ []) ++ ((x.device.tx.queue ++ [x.device.tx.entryOf (ackOf Ts r.requestCmd r.txId)]) ++
          [TxEntry.mk cached.responseBytes (isTelemetryFrame cached.responseBytes)]).map (·.frame) = _
        rw [toHost, deviceQueue]
        rfl
      · intro frame member
        rw [List.mem_singleton.mp member]
        exact ⟨_, _, _, rfl⟩
      · exact ⟨_, reply, answer, frame⟩

/-- The exchange after a frame has gone from the line to the host. -/
theorem back_erased {n : Nat} {frame : List UInt8} (there : x.toHost[n]? = some frame) (host : ProtocolStack Ts) :
    x.back[n]? = some frame ∧
      Exchange.back { x with host := host, toHost := x.toHost.eraseIdx n } = x.back.eraseIdx n := by
  have inside := (List.getElem?_eq_some_iff.mp there).1
  constructor
  · rw [Exchange.back, List.getElem?_append_left inside]
    exact there
  · exact (List.eraseIdx_append_of_lt_length inside _).symm

theorem hearHost (f : Follows service handlers x a) (now : Time) :
    Told service handlers x a (x.step service (.hearHost now)) := by
  cases arrives : x.toHost with
  | nil =>
    have same : x.step service (.hearHost now) = (x, []) := by
      simp only [Exchange.step, arrives]
    rw [same]
    exact Told.nothing rfl rfl f
  | cons frame rest =>
  have there : x.toHost[0]? = some frame := by rw [arrives]; rfl
  have rest_ : x.toHost.eraseIdx 0 = rest := by rw [arrives]; rfl
  obtain ⟨here, erased⟩ := back_erased there x.host
  obtain ⟨waiting, current⟩ := a
  cases current with
  | none =>
    rw [(f.idle rfl).2] at here
    cases here
  | some c =>
  obtain ⟨r, n, was, place⟩ := c
  have step (content : Frame) (heard_ : heard Ts frame = some content) : x.step service (.hearHost now) =
      Exchange.hostStep { x with toHost := rest } (.packet now content.cmd content.payload) := by
    simp only [Exchange.step, arrives, heard_]
  rcases (f.way _ rfl).at_back here with ⟨⟨seq, cmd, t, rfl⟩, way⟩ | ⟨rfl, ⟨seq, reply, answer, rfl⟩, out, others, -⟩
  · -- an acknowledgement moves a deadline at most
    have read : heard Ts (frameBytes seq (ackOf Ts cmd t).traits.cmd (ackOf Ts cmd t).bytes) =
        some (ackOf Ts cmd t).content := heard_packet seq (ProtocolStack.ackOf_fits cmd t)
    have done : (stack Ts).step x.host (.packet now (ackOf Ts cmd t).content.cmd (ackOf Ts cmd t).content.payload) =
        ({ x.host with session := x.host.session.onAck now (ackPacket.getTxId (ackOf Ts cmd t).bytes) }, []) := by
      have whole : (ackOf Ts cmd t).bytes.length = ackPacket.size := (ackOf Ts cmd t).length_bytes
      show x.host.handlePacketInternal now ACK_CMD (ackOf Ts cmd t).bytes = _
      rw [ProtocolStack.handlePacketInternal, if_pos rfl, ProtocolStack.handleAckPacket,
        if_neg (not_not.mpr whole)]
    rw [step _ read, Exchange.hostStep_quiet (x := { x with toHost := rest }) done rfl]
    have next : (x.host.session.onAck now (ackPacket.getTxId (ackOf Ts cmd t).bytes)).nextTxId =
        x.host.session.nextTxId :=
      (ReliableSession.step_fixed x.host.session (.onAck now (ackPacket.getTxId (ackOf Ts cmd t).bytes))).2
    apply Told.nothing rfl next
    constructor
    · exact f.host.ack _ _
    · show DeviceHolds service handlers x.device _ (numbersLeft (x.host.session.onAck _ _))
      rw [numbersLeft_same next]
      exact f.device
    · intro none
      cases none
    · intro c out
      cases out
      rw [← erased, rest_] at way
      exact way
  · -- the response to the request that is out
    have first : r ∈ StopAndWait.State.requests ⟨waiting, some ⟨r, n, was, .answering⟩⟩ := List.mem_cons_self
    obtain ⟨args, answerable, same⟩ := f.host.sent r first
    obtain ⟨-, -, -, reply', answer', cmd, id, small⟩ := f.host.answer first
    obtain rfl : reply = reply' := Option.some.inj (answer.symm.trans answer')
    have nonzero : r.txId ≠ 0 := f.host.nonzero _ (List.mem_append_left _ List.mem_cons_self)
    have kind : r.responseCmd ≠ ACK_CMD ∧ isRequestCmd r.responseCmd = false := by
      have responseCmd : r.responseCmd = args.responseCmd := by
        rw [same]
        rfl
      rw [responseCmd]
      exact answerable.responseCmd
    have read : heard Ts (frameBytes seq reply.traits.cmd reply.bytes) = some reply.content :=
      heard_packet seq (Nat.le_trans small (by decide))
    have extracted : extractTxIdFromRaw Ts reply.traits.cmd reply.bytes = r.txId :=
      (extractTxIdFromRaw_mem reply.mem reply.length_bytes).trans id
    obtain ⟨events, host⟩ := f.host.respond reply.bytes
    have done : (stack Ts).step x.host (.packet now reply.content.cmd reply.content.payload) =
        ({ x.host with session := (x.host.session.onResponse r.responseCmd r.txId reply.bytes).1 },
          [.session (.response r.txId r.responseCmd reply.bytes)]) := by
      show x.host.handlePacketInternal now reply.traits.cmd reply.bytes = _
      rw [ProtocolStack.handlePacketInternal, ProtocolStack.handleResponsePacket, extracted, cmd, if_neg kind.1,
        if_neg (by rw [kind.2]; exact Bool.false_ne_true), if_neg nonzero]
      dsimp only
      rw [events]
      rfl
    rw [step _ read, Exchange.hostStep_quiet (x := { x with toHost := rest }) done rfl]
    have next : (x.host.session.onResponse r.responseCmd r.txId reply.bytes).1.nextTxId = x.host.session.nextTxId :=
      (ReliableSession.step_fixed x.host.session (.onResponse r.responseCmd r.txId reply.bytes)).2
    apply Told.other .answer rfl
    · have content : replyTo service handlers r = some ⟨r.responseCmd, reply.bytes⟩ := by
        rw [replyTo, answer, Option.map_some, Packet.content, cmd]
      show [Observed.callback r.txId (replyTo service handlers r)] = _
      rw [content]
      rfl
    · exact next
    constructor
    · exact host
    · show DeviceHolds service handlers x.device ⟨waiting, none⟩ (numbersLeft (x.host.session.onResponse _ _ _).1)
      rw [numbersLeft_same next]
      exact f.device.conclude
    · intro _
      refine ⟨out, ?_⟩
      rw [← erased, rest_] at others
      exact others
    · intro c out
      cases out

/-- A request that is lost. -/
theorem loseRequest (f : Follows service handlers x a) (n : Nat) :
    Told service handlers x a (x.step service (.loseRequest n)) := by
  cases there : x.toDevice[n]? with
  | none =>
    have same : x.step service (.loseRequest n) = (x, []) := by
      simp only [Exchange.step, there]
    rw [same]
    exact Told.nothing rfl rfl f
  | some frame =>
  have lost : x.step service (.loseRequest n) = ({ x with toDevice := x.toDevice.eraseIdx n }, [.lost frame]) := by
    simp only [Exchange.step, there]
  obtain ⟨first, rest, arrives⟩ : ∃ first rest, x.toDevice = first :: rest := by
    apply List.exists_cons_of_ne_nil
    rintro none
    rw [none] at there
    cases there
  obtain ⟨waiting, r, retries, was, rfl, rfl, hostQueue, -, toHost, deviceQueue⟩ := f.asked arrives
  have none : x.toDevice.eraseIdx n = [] := by
    have inside := (List.getElem?_eq_some_iff.mp there).1
    rw [arrives, List.length_singleton] at inside
    obtain rfl : n = 0 := by omega
    rw [arrives]
    rfl
  rw [lost, none]
  apply Told.other .lose rfl
  · rfl
  · rfl
  constructor
  · exact f.host.move
  · exact f.device.move
  · intro none
    cases none
  · intro c out
    cases out
    constructor
    · show [] ++ x.host.tx.queue.map (·.frame) = []
      rw [hostQueue]
      rfl
    · intro frame member
      rw [Exchange.back, toHost, deviceQueue] at member
      cases member

/-- A response that is lost, or an acknowledgement that nobody waits for. -/
theorem loseResponse (f : Follows service handlers x a) (n : Nat) :
    Told service handlers x a (x.step service (.loseResponse n)) := by
  cases there : x.toHost[n]? with
  | none =>
    have same : x.step service (.loseResponse n) = (x, []) := by
      simp only [Exchange.step, there]
    rw [same]
    exact Told.nothing rfl rfl f
  | some frame =>
  have lost : x.step service (.loseResponse n) = ({ x with toHost := x.toHost.eraseIdx n }, [.lost frame]) := by
    simp only [Exchange.step, there]
  obtain ⟨here, erased⟩ := back_erased there x.host
  obtain ⟨waiting, current⟩ := a
  cases current with
  | none =>
    rw [(f.idle rfl).2] at here
    cases here
  | some c =>
  obtain ⟨r, retries, was, place⟩ := c
  rw [lost]
  rcases (f.way _ rfl).at_back here with ⟨-, way⟩ | ⟨rfl, -, out, -, acks⟩
  · apply Told.other .stray rfl
    · rfl
    · rfl
    constructor
    · exact f.host
    · exact f.device
    · intro none
      cases none
    · intro c out
      cases out
      rw [← erased] at way
      exact way
  · apply Told.other .lose rfl
    · rfl
    · rfl
    constructor
    · exact f.host.move
    · exact f.device.move
    · intro none
      cases none
    · intro c out'
      cases out'
      refine ⟨out, ?_⟩
      rw [← erased] at acks
      exact acks

/-- **An orderly step is one of stop and wait.** -/
theorem step (f : Follows service handlers x a) (o : ExchangeOp Ts) (orderly : Orderly service handlers x o) :
    Told service handlers x a (x.step service o) := by
  cases o with
  | send now args => exact f.send now orderly.1 orderly.2
  | outbound clock => exact f.outbound clock
  | retries now clock => exact f.retries now clock orderly
  | drainHost sendFrame => exact f.drainHost sendFrame
  | drainDevice sendFrame => exact f.drainDevice sendFrame
  | hearDevice now => exact f.hearDevice now
  | hearHost now => exact f.hearHost now
  | loseRequest n => exact f.loseRequest n
  | loseResponse n => exact f.loseResponse n

end Follows

/-! ### What is seen -/

section Seen

def Observed.registered? : Observed → Option Registration
  | .registered r => some r
  | _ => none

def Observed.ran? : Observed → Option Run
  | .ran run => some run
  | _ => none

def Observed.callback? : Observed → Option (TransactionId × Option Frame)
  | .callback txId response => some (txId, response)
  | _ => none

def Observed.isLost : Observed → Bool
  | .lost => true
  | _ => false

variable (seen : List Observed)

def registered : List Registration := seen.filterMap Observed.registered?

/-- The handlers' runs. -/
def ran : List Run := seen.filterMap Observed.ran?

def callbacks : List (TransactionId × Option Frame) := seen.filterMap Observed.callback?

def lost : Nat := seen.countP Observed.isLost

/-- The run of a handler that a request asks for. -/
def asked (r : Registration) : Run := ⟨r.requestCmd, r.txId, r.requestBytes⟩

variable {Ts : PacketTypes} (service : Service Ts) (handlers : DenseMap UInt16 (Option HandlerId))

/-- The callback that concludes a request, answered or not. -/
def concludes (d : Registration × Bool) : TransactionId × Option Frame :=
  (d.1.txId, if d.2 then replyTo service handlers d.1 else none)

variable (log : List (StopAndWait.Event Registration))

theorem registered_told : registered (log.map (told service handlers)) = StopAndWait.queued log := by
  rw [registered, List.filterMap_map]
  congr 1
  funext e
  cases e <;> rfl

theorem ran_told : ran (log.map (told service handlers)) = (StopAndWait.served log).map asked := by
  rw [ran, List.filterMap_map, StopAndWait.served, List.map_filterMap]
  congr 1
  funext e
  cases e <;> rfl

theorem callbacks_told : callbacks (log.map (told service handlers)) =
    (StopAndWait.concluded log).map (concludes service handlers) := by
  rw [callbacks, List.filterMap_map, StopAndWait.concluded, List.map_filterMap]
  congr 1
  funext e
  cases e <;> rfl

theorem lost_told : lost (log.map (told service handlers)) = StopAndWait.losses log := by
  rw [lost, List.countP_map, StopAndWait.losses]
  congr 1
  funext e
  cases e <;> rfl

end Seen

/-! ### Exactly once -/

section Runs

variable {Ts : PacketTypes} (service : Service Ts) (handlers : DenseMap UInt16 (Option HandlerId))

/-- Stop and wait, its log kept, in the words of an exchange. -/
def turns : Machine (StopAndWait.State Registration × List (StopAndWait.Event Registration))
    (StopAndWait.Op Registration) Observed :=
  (StopAndWait.stopAndWait retriesOf).recorded.renamed (told service handlers)

/-- The numbers registered come in ascending order, before those left. -/
structure FollowsRun (x : Exchange Ts)
    (t : StopAndWait.State Registration × List (StopAndWait.Event Registration)) : Prop where
  follows : Follows service handlers x t.1
  ascending : (ids (StopAndWait.queued t.2) ++ numbersLeft x.host.session).Pairwise (· < ·)

/-- **An exchange simulates stop and wait.** -/
theorem exchange_simulates : Simulates (exchange service) (turns service handlers) (FollowsRun service handlers)
    (Orderly service handlers) (fun _ _ => True) ExchangeEvent.observed := by
  constructor
  intro x ⟨a, log⟩ o related orderly
  obtain ⟨ops, same, takes, follows⟩ := related.follows.step o orderly
  refine ⟨ops, Machine.along_of _ _ fun _ _ => trivial, ?_, ?_⟩
  · rw [turns, Machine.renamed_trace, Machine.recorded_trace]
    exact same
  · rw [turns, Machine.renamed_exec, Machine.recorded_exec]
    constructor
    · exact follows
    · rw [StopAndWait.queued_append, ids_append]
      exact takes.ascending related.ascending

/-- The requests seen so far, each with its callback, in order: `done` are those that are concluded, and
whether they were answered. -/
structure ExactlyOnce (seen : List Observed) (done : List (Registration × Bool)) : Prop where
  /-- No two requests have one number. -/
  ascending : (ids (registered seen)).Pairwise (· < ·)
  /-- The requests are concluded in the order they were sent in. -/
  order : done.map Prod.fst <+: registered seen
  /-- One callback for each, with the response to this request or without. -/
  callbacks : callbacks seen = done.map (concludes service handlers)
  /-- Each request is handled once at most, in order, with the bytes that were sent. -/
  once : (ran seen).Sublist ((registered seen).map asked)
  /-- Those answered have been handled. -/
  answers : ((StopAndWait.answered done).map asked).Sublist (ran seen)
  /-- A request that fails has lost each of its copies, or the response to it. -/
  price : StopAndWait.price retriesOf done ≤ lost seen

/-- **Exactly once, in order**, whatever is lost on the way. The window is at most one, the device can
cache a response, and the run is `Orderly`: every request sent is `Answerable`, under a number that is
not 0, error callbacks do nothing, and the host polls only when the exchange is `Quiet`, with nothing
in the queues and on the line, or before its wake time. Once nothing is pending every request is
concluded; and when no more frames are lost than a request has retries, all that are concluded are
answered. -/
theorem exactly_once (hostConfig deviceConfig : Config) (ops : List (ExchangeOp Ts))
    (one : hostConfig.windowSize ≤ 1) (capacity : 0 < deviceConfig.deviceCacheCapacity)
    (orderly : (exchange service).Along (Orderly service handlers) (.init Ts hostConfig deviceConfig handlers) ops) :
    let start : Exchange Ts := .init Ts hostConfig deviceConfig handlers
    let last := (exchange service).exec start ops
    let seen := observe ((exchange service).trace start ops)
    ∃ done, ExactlyOnce service handlers seen done ∧
      (last.host.session.pendingByTx.entries = [] → done.map Prod.fst = registered seen) ∧
      ((∀ r ∈ registered seen, lost seen ≤ r.maxRetries.toNat) → ∀ d ∈ done, d.2 = true) := by
  intro start last seen
  have begins : FollowsRun service handlers start ({}, []) := by
    constructor
    · exact .init Ts service one capacity handlers
    · exact List.pairwise_singleton _ _
  obtain ⟨turnsTaken, -, same, related⟩ := (exchange_simulates service handlers).run begins ops orderly
  rw [turns, Machine.renamed_trace, Machine.recorded_trace] at same
  rw [turns, Machine.renamed_exec, Machine.recorded_exec, List.nil_append] at related
  have account : StopAndWait.Accounts _ _ _ _ _ _ := StopAndWait.Accounted.run retriesOf turnsTaken
  obtain ⟨follows, ascending⟩ := related
  generalize (StopAndWait.stopAndWait retriesOf).exec {} turnsTaken = a at account follows ascending
  generalize (StopAndWait.stopAndWait retriesOf).trace {} turnsTaken = log at account same ascending
  have seen_ : seen = log.map (told service handlers) := same.symm
  have queued := account.order
  refine ⟨StopAndWait.concluded log, ?_, ?_, ?_⟩
  · rw [seen_]
    constructor
    · rw [registered_told]
      exact (List.pairwise_append.mp ascending).1
    · rw [registered_told]
      exact ⟨a.requests, queued⟩
    · exact callbacks_told service handlers log
    · rw [ran_told, registered_told]
      exact account.served_once.map asked
    · rw [ran_told]
      apply List.Sublist.map
      exact (List.sublist_append_left _ _).trans account.answers
    · rw [lost_told]
      exact Nat.le_trans (Nat.le_add_right _ _) account.paid
  · intro empty
    rw [seen_, registered_told, ← queued, follows.host.none_left empty, List.append_nil]
  · intro cheap d member
    rw [seen_, registered_told, lost_told] at cheap
    have asked_ : d.1 ∈ StopAndWait.queued log := by
      rw [← queued]
      exact List.mem_append_left _ (List.mem_map_of_mem member)
    have paid := Nat.le_trans (Nat.le_add_right _ _) account.paid
    exact StopAndWait.answered_of_cheap member (Nat.le_trans paid (cheap d.1 asked_))

end Runs

/-- A handler that answers with a response of its own type. -/
def zeroService : Service Arm.armPackets := fun _ _ txId _ =>
  ⟨Arm.setZeroResponsePacket, Arm.setZeroResponsePacket.setTxId (List.replicate 5 0) txId, by decide,
    PacketTraits.length_setTxId _ List.length_replicate⟩

def zeroHandlers : DenseMap UInt16 (Option HandlerId) := DenseMap.empty.insertOrAssign 0x6107 (some 7)

theorem sampleSend_answerable : Answerable zeroService zeroHandlers sampleSend where
  odd := by decide
  low := by decide
  short := by decide
  onResponse := rfl
  onError := rfl
  responseCmd := by decide
  answered txId := by
    refine ⟨zeroService 7 0x6107 txId (sampleSend.request.traits.setTxId sampleSend.request.bytes txId), rfl,
      rfl, ?_, ?_⟩
    · exact PacketTraits.getTxId_setTxId (o := 0) txId List.length_replicate rfl
    · show Arm.setZeroResponsePacket.frameSize ≤ MAX_PACKET_SIZE
      decide

/-- Two requests, the first of which is lost once, and the acknowledgement of the second copy. -/
def lossyRun : List (ExchangeOp Arm.armPackets) :=
  [.send 0 sampleSend, .send 1 sampleSend, .outbound fun _ => 5, .drainHost (some true), .loseRequest 0,
    .retries 300000 fun _ => 300000, .drainHost (some true), .hearDevice 300001, .drainDevice (some true),
    .drainDevice (some true), .loseResponse 0, .hearHost 300002, .outbound fun _ => 300003, .drainHost (some true),
    .hearDevice 300004, .drainDevice (some true), .hearHost 300005, .drainDevice (some true), .hearHost 300006]

theorem lossyRun_orderly : (exchange zeroService).Along (Orderly zeroService zeroHandlers)
    (.init Arm.armPackets {} {} zeroHandlers) lossyRun := by
  have quiet : Exchange.Quiet ((exchange zeroService).exec (.init Arm.armPackets {} {} zeroHandlers)
      (lossyRun.take 5)) :=
    ⟨by decide +kernel, by decide +kernel, by decide +kernel, by decide +kernel⟩
  exact ⟨⟨sampleSend_answerable, by decide +kernel⟩, ⟨sampleSend_answerable, by decide +kernel⟩, trivial, trivial,
    trivial, .inl quiet, trivial, trivial, trivial, trivial, trivial, trivial, trivial, trivial, trivial, trivial,
    trivial, trivial, trivial, trivial⟩

/-- Both requests are answered, though two frames are lost. -/
theorem exactly_once_lossy :
    ∃ done, ExactlyOnce zeroService zeroHandlers
        (observe ((exchange zeroService).trace (.init Arm.armPackets {} {} zeroHandlers) lossyRun)) done ∧
      done.map Prod.fst = [sampleSend.registration 1, sampleSend.registration 2] ∧ ∀ d ∈ done, d.2 = true := by
  obtain ⟨done, once, complete, answered⟩ :=
    exactly_once zeroService zeroHandlers {} {} lossyRun (by decide) (by decide)
    lossyRun_orderly
  have requests : registered (observe
      ((exchange zeroService).trace (.init Arm.armPackets {} {} zeroHandlers) lossyRun)) =
      [sampleSend.registration 1, sampleSend.registration 2] := by decide +kernel
  have losses : lost (observe ((exchange zeroService).trace
      (.init Arm.armPackets {} {} zeroHandlers) lossyRun)) = 2 := by
    decide +kernel
  have nothing : ((exchange zeroService).exec (.init Arm.armPackets {} {} zeroHandlers)
      lossyRun).host.session.pendingByTx.entries.isEmpty = true := by
    decide +kernel
  rw [requests, losses] at answered
  refine ⟨done, once, ?_, answered (by decide)⟩
  rw [complete (List.isEmpty_iff.mp nothing), requests]

end FloridUsb.EndToEnd
