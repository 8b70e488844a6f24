import FloridUsb.Session.Retry
import FloridUsb.Stack.Memory

/-!
# What the session stores

Between `send` and the transmit queue a request lies in the session, and between its first
sending and a replay so does a response. The session keeps 256 bytes of each, a frame may have
512. A request type that is larger is never sent, because its stored bytes no longer have the
size of the type (`enqueueEntry_places_iff`); a longer response frame is replayed cut off.

A retransmission reads the stored request through a pointer, after the error callbacks
(`Stack.Memory`). It carries the packet of its `send` unless one of them has moved the entries or
has written another request over it (`storage_faithful_iff`, `retry_reads_later_send`).
-/

namespace FloridUsb.Stack
set_option autoImplicit false

open Lib Rpl Session

section Storage

variable {Ts : PacketTypes}

/-- The packet that `send` makes. -/
def SendArgs.packet (args : SendArgs Ts) (txId : TransactionId) : Packet Ts where
  traits := args.request.traits
  bytes := (args.registration txId).requestBytes
  mem := args.request.mem
  length_bytes := PacketTraits.length_setTxId txId args.request.length_bytes

variable (Ts) in
/-- The bytes of a packet of a listed type, whose frame fits. -/
def Serializable (cmd : UInt16) (raw : List UInt8) : Prop :=
  ∃ packet : Packet Ts, packet.content = ⟨cmd, raw⟩ ∧ packet.traits.frameSize ≤ MAX_FRAME_SIZE

theorem serializeRawToFrame_eq_none {serializer : Serializer} {cmd : UInt16} {raw : List UInt8} :
    serializeRawToFrame Ts serializer cmd raw = none ↔ ¬ Serializable Ts cmd raw := by
  constructor
  · rintro none ⟨packet, content, fits⟩
    obtain ⟨rfl, rfl⟩ := Frame.mk.inj content
    rw [serializeRawToFrame_packet] at none
    have long := serializePacketToFrame_eq_none none
    omega
  · intro unserializable
    cases done : serializeRawToFrame Ts serializer cmd raw with
    | none => rfl
    | some result =>
      obtain ⟨packet, rfl, rfl, made⟩ := serializeRawToFrame_eq_some done
      exact absurd ⟨packet, rfl, (serializePacketToFrame_eq_some made).1⟩ unserializable

/-- A request of at most 256 bytes is stored whole. -/
theorem stored_whole {args : SendArgs Ts} (small : args.request.traits.size ≤ MAX_PACKET_SIZE) (txId : TransactionId) :
    (args.registration txId).entry.requestBytes = (args.packet txId).bytes := by
  show (args.packet txId).bytes.take MAX_PACKET_SIZE = _
  apply List.take_of_length_le
  rw [(args.packet txId).length_bytes]
  exact small

/-- What is stored of a request can be serialized exactly if it is all of it, and its frame fits. -/
theorem entry_serializable_iff (args : SendArgs Ts) (txId : TransactionId) :
    Serializable Ts (args.registration txId).entry.requestCmd (args.registration txId).entry.requestBytes ↔
      args.request.traits.size ≤ MAX_PACKET_SIZE ∧ args.request.traits.frameSize ≤ MAX_FRAME_SIZE := by
  constructor
  · rintro ⟨packet, content, fits⟩
    obtain ⟨cmd, bytes⟩ := Frame.mk.inj content
    have traits : packet.traits = args.request.traits := by
      apply Option.some.inj
      rw [← PacketTypes.find_mem packet.mem, ← PacketTypes.find_mem args.request.mem, cmd]
      rfl
    -- the stored bytes have the size of the type
    have stored := congrArg List.length bytes
    change _ = ((args.packet txId).bytes.take MAX_PACKET_SIZE).length at stored
    rw [packet.length_bytes, traits, List.length_take, (args.packet txId).length_bytes] at stored
    change _ = min _ args.request.traits.size at stored
    exact ⟨by omega, traits ▸ fits⟩
  · rintro ⟨small, fits⟩
    refine ⟨args.packet txId, ?_, fits⟩
    rw [stored_whole small txId]
    rfl

theorem enqueuePendingFrame_crowded {s : TxPath} (crowded : Crowded s.queue) (cmd : UInt16) (raw : List UInt8) :
    s.enqueuePendingFrame Ts cmd raw = (s, none) := by
  unfold TxPath.enqueuePendingFrame
  rw [if_pos crowded.1, dropOneTelemetry_eq_none.mpr crowded.2]

/-- Raw bytes are enqueued if they can be serialized and the queue has room or holds telemetry. -/
theorem enqueuePendingFrame_isSome_iff (Ts : PacketTypes) (s : TxPath) (cmd : UInt16) (raw : List UInt8) :
    (s.enqueuePendingFrame Ts cmd raw).2.isSome ↔ ¬ Crowded s.queue ∧ Serializable Ts cmd raw := by
  constructor
  · intro pushed
    obtain ⟨entry, pushed⟩ := Option.isSome_iff_exists.mp pushed
    constructor
    · intro crowded
      rw [enqueuePendingFrame_crowded crowded] at pushed
      cases pushed
    · obtain ⟨packet, rfl, rfl, fits, -⟩ := TxPath.enqueuePendingFrame_frame pushed
      exact ⟨packet, rfl, fits⟩
  · rintro ⟨room, serializable⟩
    unfold TxPath.enqueuePendingFrame
    cases made : serializeRawToFrame Ts s.serializer cmd raw with
    | none => exact absurd serializable (serializeRawToFrame_eq_none.mp made)
    | some result =>
      by_cases full : s.queue.length ≥ TX_QUEUE_CAP
      · rw [if_pos full]
        cases dropped : dropOneTelemetry s.queue with
        | none => exact absurd ⟨full, dropOneTelemetry_eq_none.mp dropped⟩ room
        | some queue => rfl
      · rw [if_neg full]
        rfl

section Entry

variable {s : ProtocolStack Ts} {e : RetransmitEntry}

theorem enqueueEntry_refused (refused : (s.tx.enqueuePendingFrame Ts e.requestCmd e.requestBytes).2 = none) :
    (s.enqueueEntry e).2 = [] := by
  rw [ProtocolStack.enqueueEntry, ProtocolStack.transmit, refused]
  rfl

theorem enqueueEntry_pushed {entry : TxEntry}
    (pushed : (s.tx.enqueuePendingFrame Ts e.requestCmd e.requestBytes).2 = some entry) :
    (s.enqueueEntry e).2 = [.enqueued ⟨e.requestCmd, e.requestBytes⟩ entry] := by
  rw [ProtocolStack.enqueueEntry, ProtocolStack.transmit, pushed]
  rfl

theorem enqueueEntry_enqueues_iff :
    (∃ entry, (s.enqueueEntry e).2 = [.enqueued ⟨e.requestCmd, e.requestBytes⟩ entry]) ↔
      ¬ Crowded s.tx.queue ∧ Serializable Ts e.requestCmd e.requestBytes := by
  rw [← enqueuePendingFrame_isSome_iff]
  cases pushed : (s.tx.enqueuePendingFrame Ts e.requestCmd e.requestBytes).2 with
  | none =>
    rw [enqueueEntry_refused pushed]
    simp
  | some entry =>
    rw [enqueueEntry_pushed pushed]
    simp

end Entry

/-- The calls that an operation may make. -/
def StackOp.Calls (a : Act Ts) : StackOp Ts → Prop
  | .act b => b = a
  | .sessionRetries _ _ callbacks => ∃ txId, a ∈ callbacks txId
  | .packet _ _ _ | .sessionOutbound _ | .drainTx _ => False

/-- The entry is what the session stored of a `send` of the run. -/
def SentFrom (Ts : PacketTypes) (h : List StackEvent) (e : RetransmitEntry) : Prop :=
  ∃ (args : SendArgs Ts) (txId : TransactionId), .session (.registered (args.registration txId)) ∈ h ∧
    e = (args.registration txId).entry

/-- The pending entry is what the session stored of the last `send` under its transaction. -/
def LastSent (Ts : PacketTypes) (h : List StackEvent) (t : TransactionId) (p : PendingEntry) : Prop :=
  ∃ args : SendArgs Ts, lastRegistered t (sessionLog h) = some (args.registration t) ∧
    p.request = (args.registration t).stored

/-- The first sending of a response, by a call of `send_response_and_cache` of the run. -/
structure FirstSending (P : Act Ts → Prop) (h : List StackEvent) (cmd : UInt16) (txId : TransactionId)
    (response : Packet Ts)
    (first : TxEntry) : Prop where
  called : P (.sendResponseAndCache cmd txId response)
  fits : response.traits.frameSize ≤ MAX_FRAME_SIZE
  enqueued : .enqueued response.content first ∈ h
  frame : ∃ seq, first.frame = frameBytes seq response.traits.cmd response.bytes

theorem FirstSending.mono {P : Act Ts → Prop} {h ev : List StackEvent} {cmd : UInt16} {txId : TransactionId}
    {response : Packet Ts}
    {first : TxEntry} (sent : FirstSending P h cmd txId response first) :
    FirstSending P (h ++ ev) cmd txId response first :=
  ⟨sent.called, sent.fits, List.mem_append_left _ sent.enqueued, sent.frame⟩

/-- What the session stores, in a run that has logged `h` and has `todo` to enqueue. -/
structure Stored (P : Act Ts → Prop) (s : ProtocolStack Ts) (h : List StackEvent)
    (todo : List RetransmitEntry) : Prop where
  pending : ∀ t p, s.session.pendingByTx.find? t = some p → LastSent Ts h t p
  sent : ∀ e, .session (.handedOut e) ∈ h ∨ .session (.retransmitted e) ∈ h ∨ e ∈ todo → SentFrom Ts h e
  cached : ∀ k c, s.session.completedCache.find? k = some c → ∃ cmd txId response first, k = composeDedupKey cmd txId ∧
    FirstSending P h cmd txId response first ∧ c.responseBytes = first.frame.take MAX_PACKET_SIZE
  replayed : ∀ cmd txId entry, .replayed cmd txId entry ∈ h → ∃ response first,
    FirstSending P h cmd txId response first ∧ entry.frame = first.frame.take MAX_PACKET_SIZE

/-- No entry of the session, no registration, and no replay. -/
def StackEvent.isPlain : StackEvent → Bool
  | .session (.handedOut _) | .session (.retransmitted _) | .session (.registered _) | .replayed _ _ _ => false
  | .session _ | .offered _ | .enqueued _ _ | .accepted _ | .handler _ _ _ _ => true

theorem SentFrom.mono {h : List StackEvent} {e : RetransmitEntry} (sent : SentFrom Ts h e) (ev : List StackEvent) :
    SentFrom Ts (h ++ ev) e := by
  obtain ⟨args, txId, registered, same⟩ := sent
  exact ⟨args, txId, List.mem_append_left _ registered, same⟩

theorem LastSent.sentFrom {h : List StackEvent} {t : TransactionId} {p : PendingEntry} (sent : LastSent Ts h t p) :
    SentFrom Ts h p.toRetransmit := by
  obtain ⟨args, last, stored⟩ := sent
  obtain ⟨registered, -⟩ := mem_of_lastRegistered last
  exact ⟨args, t, mem_sessionLog.mp registered, PendingEntry.entry_eq stored⟩

/-- Nothing is registered, and the request is the same. -/
theorem LastSent.mono {h ev : List StackEvent} {t : TransactionId} {p q : PendingEntry} (sent : LastSent Ts h t q)
    (quiet : ∀ r, .session (.registered r) ∉ ev) (same : p.request = q.request) : LastSent Ts (h ++ ev) t p := by
  obtain ⟨args, last, stored⟩ := sent
  refine ⟨args, ?_, same.trans stored⟩
  rw [sessionLog_append, lastRegistered_quiet t fun r member => quiet r (mem_sessionLog.mp member)]
  exact last

theorem StackEvent.isPlain_quiet {ev : List StackEvent} (plain : ∀ e ∈ ev, e.isPlain = true) (r : Registration) :
    .session (.registered r) ∉ ev := by
  intro member
  cases plain _ member

namespace Stored

variable {P : Act Ts → Prop} {s s' : ProtocolStack Ts} {h ev : List StackEvent} {todo todo' : List RetransmitEntry}

/-- Plain events and registrations, with what is pending and cached then. -/
theorem grow (stored : Stored P s h todo)
    (plain : ∀ e ∈ ev, e.isPlain = true ∨ ∃ r, e = .session (.registered r))
    (pending : ∀ t p, s'.session.pendingByTx.find? t = some p → LastSent Ts (h ++ ev) t p)
    (cached : ∀ k c, s'.session.completedCache.find? k = some c → s.session.completedCache.find? k = some c) :
    Stored P s' (h ++ ev) todo := by
  constructor
  · exact pending
  · intro e member
    have known : .session (.handedOut e) ∈ h ∨ .session (.retransmitted e) ∈ h ∨ e ∈ todo := by
      rcases member with handed | retransmitted | later
      · exact .inl ((List.mem_append.mp handed).resolve_right
          fun new => by rcases plain _ new with h | ⟨_, h⟩ <;> cases h)
      · exact .inr (.inl ((List.mem_append.mp retransmitted).resolve_right fun new =>
          by rcases plain _ new with h | ⟨_, h⟩ <;> cases h))
      · exact .inr (.inr later)
    exact (stored.sent e known).mono ev
  · intro k c found
    obtain ⟨cmd, txId, response, first, key, sent, bytes⟩ := stored.cached k c (cached k c found)
    exact ⟨cmd, txId, response, first, key, sent.mono, bytes⟩
  · intro cmd txId entry member
    have old := (List.mem_append.mp member).resolve_right fun new => by rcases plain _ new with h | ⟨_, h⟩ <;> cases h
    obtain ⟨response, first, sent, frame⟩ := stored.replayed cmd txId entry old
    exact ⟨response, first, sent.mono, frame⟩

/-- The session is as it was. -/
theorem extend (stored : Stored P s h todo) (plain : ∀ e ∈ ev, e.isPlain = true) (same : s'.session = s.session) :
    Stored P s' (h ++ ev) todo := by
  apply stored.grow fun e member => .inl (plain e member)
  · intro t p found
    exact (stored.pending t p (same ▸ found)).mono (StackEvent.isPlain_quiet plain) rfl
  · intro k c found
    exact same ▸ found

/-- An operation of the session that carries its entries on. -/
theorem carry (stored : Stored P s h todo) {session' : ReliableSession} (carries : s.session.Carries session')
    (cached : session'.completedCache = s.session.completedCache) (plain : ∀ e ∈ ev, e.isPlain = true) :
    Stored P { s with session := session' } (h ++ ev) todo := by
  apply stored.grow fun e member => .inl (plain e member)
  · intro t p found
    obtain ⟨q, before, same, -⟩ := carries t p found
    exact (stored.pending t q before).mono (StackEvent.isPlain_quiet plain) same
  · intro k c found
    exact cached ▸ found

/-- Entries that were pending become due to be sent. -/
theorem take (stored : Stored P s h todo)
    (pending : ∀ e ∈ todo', ∃ t p, s.session.pendingByTx.find? t = some p ∧ e = p.toRetransmit) :
    Stored P s h todo' := by
  refine ⟨stored.pending, fun e member => ?_, stored.cached, stored.replayed⟩
  rcases member with handed | retransmitted | later
  · exact stored.sent e (.inl handed)
  · exact stored.sent e (.inr (.inl retransmitted))
  · obtain ⟨t, p, found, rfl⟩ := pending e later
    exact (stored.pending t p found).sentFrom

/-- What is to be sent is logged as sent. -/
theorem announce (stored : Stored P s h todo)
    (said : ∀ x ∈ ev, ∃ e ∈ todo, x = .session (.handedOut e) ∨ x = .session (.retransmitted e)) :
    Stored P s (h ++ ev) todo := by
  have known : ∀ e, .session (.handedOut e) ∈ ev ∨ .session (.retransmitted e) ∈ ev → e ∈ todo := by
    rintro e (new | new) <;> obtain ⟨e', there, same | same⟩ := said _ new <;> cases same <;> exact there
  constructor
  · intro t p found
    apply (stored.pending t p found).mono _ rfl
    intro r member
    obtain ⟨e, -, same | same⟩ := said _ member <;> cases same
  · intro e member
    apply SentFrom.mono
    rcases member with handed | retransmitted | later
    · rcases List.mem_append.mp handed with old | new
      · exact stored.sent e (.inl old)
      · exact stored.sent e (.inr (.inr (known e (.inl new))))
    · rcases List.mem_append.mp retransmitted with old | new
      · exact stored.sent e (.inr (.inl old))
      · exact stored.sent e (.inr (.inr (known e (.inr new))))
    · exact stored.sent e (.inr (.inr later))
  · intro k c found
    obtain ⟨cmd, txId, response, first, key, sent, bytes⟩ := stored.cached k c found
    exact ⟨cmd, txId, response, first, key, sent.mono, bytes⟩
  · intro cmd txId entry member
    have old : .replayed cmd txId entry ∈ h := by
      rcases List.mem_append.mp member with old | new
      · exact old
      · obtain ⟨e, -, same | same⟩ := said _ new <;> cases same
    obtain ⟨response, first, sent, frame⟩ := stored.replayed cmd txId entry old
    exact ⟨response, first, sent.mono, frame⟩

theorem send (stored : Stored P s h todo) (now : Time) (args : SendArgs Ts) :
    Stored P (s.send now args).1 (h ++ (s.send now args).2) todo := by
  have log : sessionLog (h ++ (s.send now args).2) =
      sessionLog h ++ [.registered (args.registration s.session.nextTxId)] := sessionLog_append h _
  apply stored.grow
  · intro e member
    rcases List.mem_cons.mp member with rfl | member
    · exact .inl rfl
    · exact .inr ⟨_, List.mem_singleton.mp member⟩
  · intro t p found
    simp only [ProtocolStack.send, ReliableSession.takeTxId, ReliableSession.registerPending,
      DenseMap.find?_insertOrAssign] at found
    rw [LastSent, log]
    split at found
    · rename_i here
      cases found
      refine ⟨args, ?_, ?_⟩
      · rw [lastRegistered_registered, here]
        exact if_pos rfl
      · rw [here]
        rfl
    · rename_i other
      obtain ⟨args', last, same⟩ := stored.pending t p found
      refine ⟨args', ?_, same⟩
      rw [lastRegistered_registered]
      exact (if_neg (Ne.symm other)).trans last
  · exact fun k c found => found

theorem cache (stored : Stored P s h todo) {cmd : UInt16} {txId : TransactionId} {response : Packet Ts}
    {first : TxEntry}
    (sent : FirstSending P h cmd txId response first) :
    Stored P { s with session := s.session.cacheResponse cmd txId response.traits.cmd first.frame } h todo := by
  refine ⟨stored.pending, stored.sent, fun k c found => ?_, stored.replayed⟩
  rcases ReliableSession.cacheResponse_cached found with ⟨rfl, rfl⟩ | ⟨-, before⟩
  · exact ⟨cmd, txId, response, first, rfl, sent, rfl⟩
  · exact stored.cached k c before

/-- A cached response is replayed under the key it was cached for. -/
theorem replay (stored : Stored P s h todo) {cmd : UInt16} {txId : TransactionId} {cached : CompletedResponse}
    (found : s.session.completedCache.find? (composeDedupKey cmd txId) = some cached) :
    Stored P (s.transmit (s.tx.enqueuePrebuiltFrame cached.responseBytes true) (.replayed cmd txId)).1
      (h ++ (s.transmit (s.tx.enqueuePrebuiltFrame cached.responseBytes true) (.replayed cmd txId)).2) todo := by
  have pushed : ∀ e, (s.tx.enqueuePrebuiltFrame cached.responseBytes true).2 = some e →
      e.frame = cached.responseBytes :=
    fun e pushed => TxPath.enqueuePrebuiltFrame_frame pushed
  generalize s.tx.enqueuePrebuiltFrame cached.responseBytes true = r at pushed
  obtain ⟨tx, _ | e⟩ := r
  · exact stored.extend (fun e member => by cases member) rfl
  · have sentBefore : ∀ x, (.session (.handedOut x) ∈ h ++ [StackEvent.replayed cmd txId e] →
      .session (.handedOut x) ∈ h) ∧
        (.session (.retransmitted x) ∈ h ++ [StackEvent.replayed cmd txId e] → .session (.retransmitted x) ∈ h) := by
      intro x
      constructor <;> intro member <;> simpa using member
    constructor
    · intro t p there
      exact (stored.pending t p there).mono (by simp [ProtocolStack.transmit]) rfl
    · intro x member
      apply SentFrom.mono
      rcases member with handed | retransmitted | later
      · exact stored.sent x (.inl ((sentBefore x).1 handed))
      · exact stored.sent x (.inr (.inl ((sentBefore x).2 retransmitted)))
      · exact stored.sent x (.inr (.inr later))
    · intro k c there
      obtain ⟨cmd', txId', response, first, key, sent, bytes⟩ := stored.cached k c there
      exact ⟨cmd', txId', response, first, key, sent.mono, bytes⟩
    · intro cmd' txId' entry member
      rcases List.mem_append.mp member with old | new
      · obtain ⟨response, first, sent, frame⟩ := stored.replayed cmd' txId' entry old
        exact ⟨response, first, sent.mono, frame⟩
      · cases List.mem_singleton.mp new
        obtain ⟨c, t, response, first, key, sent, bytes⟩ := stored.cached _ cached found
        obtain ⟨rfl, rfl⟩ := composeDedupKey_inj key
        exact ⟨response, first, sent.mono, (pushed _ rfl).trans bytes⟩

/-- An entry is done with, whatever is enqueued for it. -/
theorem enqueue {e : RetransmitEntry} (stored : Stored P s h (e :: todo)) (e' : RetransmitEntry) :
    Stored P (s.enqueueEntry e').1 (h ++ (s.enqueueEntry e').2) todo := by
  have rest : Stored P s h todo := ⟨stored.pending, fun x member => stored.sent x
    (member.imp_right (Or.imp_right (List.mem_cons_of_mem _))), stored.cached, stored.replayed⟩
  apply rest.extend
  · intro x member
    obtain ⟨entry, -, rfl⟩ := Option.map_eq_some_iff.mp (Option.mem_toList.mp member)
    rfl
  · rfl

theorem keeps (P : Act Ts → Prop) :
    KeepsParts P (fun _ => True) (fun _ _ => True) (fun s h _ todo => Stored P s h todo) where
  closed _ _ _ := trivial
  note s h due todo e isNote stored := by
    apply stored.extend _ rfl
    intro x member
    rw [List.mem_singleton.mp member]
    cases e with
    | offered content | handler handler cmd txId data => rfl
    | session e | enqueued content entry | replayed cmd txId entry | accepted entry => cases isNote
  handlers s h due todo handlers stored := ⟨stored.pending, stored.sent, stored.cached, stored.replayed⟩
  setNextTxId s h due todo t stored := ⟨stored.pending, stored.sent, stored.cached, stored.replayed⟩
  send s h due todo now args _ stored _ := stored.send now args
  enqueuePacket s h due todo packet priority _ _ stored := by
    apply stored.extend
    · intro x member
      obtain ⟨entry, -, rfl⟩ := Option.map_eq_some_iff.mp (Option.mem_toList.mp member)
      rfl
    · rfl
  cache s h due todo cmd txId response entry seq called fits _ enqueued frame stored :=
    stored.cache ⟨called, fits, enqueued, seq, frame⟩
  onAck s h now txId stored := by
    rw [← List.append_nil h]
    apply stored.carry (s.session.onAck_carries now txId)
    · exact (ReliableSession.step_device (o := .onAck now txId) rfl).1
    · intro e member
      cases member
  onResponse s h cmd txId data stored := by
    apply stored.carry (s.session.onResponse_carries cmd txId data)
    · exact (ReliableSession.step_device (o := .onResponse cmd txId data) rfl).1
    · intro x member
      obtain ⟨e, logged, rfl⟩ := List.mem_map.mp member
      obtain ⟨_, -, -, rfl⟩ := ReliableSession.mem_onResponse logged
      rfl
  onRequest s h cmd txId stored := by
    rw [s.session.onRequest_eq cmd txId]
    apply stored.carry
    · exact .of_eq rfl
    · rfl
    · intro x member
      rw [List.mem_singleton.mp member]
      rfl
  replay s h cmd txId cached found stored := stored.replay found
  handOut s h now stored := by
    have taken : Stored P s h (s.session.nextOutbound now).2.toList :=
      stored.take fun e out => ReliableSession.nextOutbound_mem (Option.mem_toList.mp out)
    have said : Stored P s (h ++ ((s.session.nextOutbound now).2.map fun e => .session (.handedOut e)).toList)
        (s.session.nextOutbound now).2.toList := by
      apply taken.announce
      intro x member
      obtain ⟨e, out, rfl⟩ := Option.map_eq_some_iff.mp (Option.mem_toList.mp member)
      exact ⟨e, Option.mem_toList.mpr out, .inl rfl⟩
    refine ⟨fun t p found => ?_, said.sent, fun k c found => ?_, said.replayed⟩
    · rcases ReliableSession.pump_cases now s.session s.session.outboundQueue with
        ⟨_, _, -, -, -, done⟩ | ⟨_, u, _, q, -, -, there, -, done⟩ <;> rw [ReliableSession.nextOutbound, done] at found
      · exact said.pending t p found
      · rw [DenseMap.find?_insertOrAssign] at found
        split at found
        · rename_i here
          cases found
          obtain ⟨args, last, same⟩ := said.pending t q (here ▸ there)
          exact ⟨args, last, same⟩
        · exact said.pending t p found
    · have same := (ReliableSession.step_device (s := s.session) (o := .nextOutbound now) rfl).1
      exact said.cached k c (same ▸ found)
  enqueue s h e todo _ stored := stored.enqueue e
  pollLoop s h now clock stored := by
    have taken : Stored P s h (s.session.pollLoop now clock).2.retries := by
      apply stored.take
      intro e retry
      obtain ⟨t, p, found, -, same⟩ := ReliableSession.mem_retries retry
      exact ⟨t, p, found, same⟩
    rw [← List.append_nil h]
    apply taken.carry (s.session.pollLoop_carries now clock) rfl
    intro e member
    cases member
  error s h txId due todo stored := by
    apply stored.extend _ rfl
    intro x member
    rw [List.mem_singleton.mp member]
    rfl
  skip s h txId due todo stored := stored
  retransmitted s h todo stored := by
    apply stored.announce
    intro x member
    obtain ⟨e, there, rfl⟩ := List.mem_map.mp member
    exact ⟨e, there, .inr rfl⟩
  drainTx s h sendFrame stored := by
    apply stored.extend
    · intro x member
      obtain ⟨entry, -, rfl⟩ := Option.map_eq_some_iff.mp (Option.mem_toList.mp member)
      rfl
    · rfl

end Stored

/-- The calls that a run may make. -/
def Called (ops : List (StackOp Ts)) (a : Act Ts) : Prop := ∃ o ∈ ops, o.Calls a

theorem meets_called {ops : List (StackOp Ts)} {o : StackOp Ts} (member : o ∈ ops) :
    o.Meets (Called ops) fun _ => True := by
  cases o with
  | act a => exact ⟨_, member, rfl⟩
  | sessionRetries now clock callbacks => exact fun txId a there => ⟨_, member, txId, there⟩
  | packet now cmd data | sessionOutbound clock | drainTx sendFrame => trivial

theorem Stored.init (P : Act Ts → Prop) (config : Config) : Stored P (ProtocolStack.init Ts config) [] [] := by
  constructor
  · intro t p found
    cases found
  · intro e member
    rcases member with member | member | member <;> cases member
  · intro k c found
    cases found
  · intro cmd txId entry member
    cases member

theorem stored_run (config : Config) (ops : List (StackOp Ts)) :
    Stored (Called ops) ((stack Ts).exec (.init Ts config) ops) ((stack Ts).trace (.init Ts config) ops) [] :=
  (Stored.keeps (Called ops)).whole.run_any (.init _ config) ops (fun _ member => meets_called member) trivial

end Storage

end FloridUsb.Stack
