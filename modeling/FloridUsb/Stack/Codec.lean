import FloridUsb.Stack.Parts
import FloridUsb.Stack.ReceiveStream

/-!
# Decoding undoes encoding

The frames a stack has sent, read by a peer. Every queued frame, whichever way it came into
the queue, is the frame of a packet that was given to the stack to be sent (`Encoded`):
the application's, an ACK, the bytes of a pending request, or a cached response. A peer that
gets the frames' bytes makes one call for each, with the packet's command and bytes.
-/

namespace FloridUsb.Stack
set_option autoImplicit false

open Lib Rpl Session

section Offers

variable (Ts : PacketTypes) (log : List StackEvent)

/-- A packet with these bytes was given to be sent. -/
def PacketOffered (cmd : UInt16) (bytes : List UInt8) : Prop :=
  ∃ packet : Packet Ts, packet.traits.cmd = cmd ∧ packet.bytes = bytes ∧ .offered packet.content ∈ log

/-- The frame is that of a packet that was given to be sent. -/
def FrameOffered (frame : List UInt8) : Prop :=
  ∃ (seq : UInt8) (packet : Packet Ts), frame = frameBytes seq packet.traits.cmd packet.bytes ∧
    .offered packet.content ∈ log

/-- What the log of a run says about packets. -/
def Honest : StackEvent → Prop
  | .accepted entry => FrameOffered Ts log entry.frame
  | .enqueued content entry => ∃ seq, entry.frame = frameBytes seq content.cmd content.payload
  | .session (.registered r) =>
    PacketOffered Ts log r.requestCmd r.requestBytes ∧ extractTxIdFromRaw Ts r.requestCmd r.requestBytes = r.txId
  | _ => True

/-- Every pending request, every entry to be enqueued, every cached response and every queued
frame is that of a packet given to be sent. -/
structure Encoded (s : ProtocolStack Ts) (todo : List RetransmitEntry) : Prop where
  pending : ∀ t p, s.session.pendingByTx.find? t = some p → PacketOffered Ts log p.requestCmd p.requestBytes
  cached : ∀ k c, s.session.completedCache.find? k = some c → FrameOffered Ts log c.responseBytes
  queued : ∀ e ∈ s.tx.queue, FrameOffered Ts log e.frame
  todo : ∀ e ∈ todo, PacketOffered Ts log e.requestCmd e.requestBytes
  honest : ∀ ev ∈ log, Honest Ts log ev

end Offers

section Monotone

variable {Ts : PacketTypes} {log : List StackEvent}

theorem PacketOffered.mono {cmd : UInt16} {bytes : List UInt8} (offered : PacketOffered Ts log cmd bytes)
    (ev : List StackEvent) :
    PacketOffered Ts (log ++ ev) cmd bytes := by
  obtain ⟨packet, same, content, member⟩ := offered
  exact ⟨packet, same, content, List.mem_append_left _ member⟩

theorem FrameOffered.mono {frame : List UInt8} (offered : FrameOffered Ts log frame) (ev : List StackEvent) :
    FrameOffered Ts (log ++ ev) frame := by
  obtain ⟨seq, packet, bytes, member⟩ := offered
  exact ⟨seq, packet, bytes, List.mem_append_left _ member⟩

theorem Honest.mono {e : StackEvent} (honest : Honest Ts log e) (ev : List StackEvent) : Honest Ts (log ++ ev) e := by
  match e with
  | .accepted _ => exact FrameOffered.mono honest ev
  | .enqueued _ _ => exact honest
  | .session (.registered r) => exact ⟨PacketOffered.mono honest.1 ev, honest.2⟩
  | .session (.handedOut _) | .session (.retransmitted _) | .session (.response _ _ _) | .session (.error _ _)
  | .session (.requested _ _ _) | .offered _ | .replayed _ _ _ | .handler _ _ _ _ => trivial

end Monotone

namespace Encoded

variable {Ts : PacketTypes} {s : ProtocolStack Ts} {h : List StackEvent} {todo : List RetransmitEntry}

theorem init (Ts : PacketTypes) (config : Config) : Encoded Ts [] (.init Ts config) [] := by
  constructor
  · intro t p found
    cases found
  · intro k c found
    cases found
  · intro e member
    cases member
  · intro e member
    cases member
  · intro ev member
    cases member

/-- More is logged. -/
theorem extend (enc : Encoded Ts h s todo) {ev : List StackEvent} (honest : ∀ e ∈ ev, Honest Ts (h ++ ev) e) :
    Encoded Ts (h ++ ev) s todo := by
  constructor
  · exact fun t p found => (enc.pending t p found).mono ev
  · exact fun k c found => (enc.cached k c found).mono ev
  · exact fun e member => (enc.queued e member).mono ev
  · exact fun e member => (enc.todo e member).mono ev
  · intro e member
    rcases List.mem_append.mp member with old | new
    · exact (enc.honest e old).mono ev
    · exact honest e new

/-- The session has changed. -/
theorem withSession (enc : Encoded Ts h s todo) {session' : ReliableSession} {todo' : List RetransmitEntry}
    (pending : ∀ t p, session'.pendingByTx.find? t = some p → PacketOffered Ts h p.requestCmd p.requestBytes)
    (cached : ∀ k c, session'.completedCache.find? k = some c → FrameOffered Ts h c.responseBytes)
    (entries : ∀ e ∈ todo', PacketOffered Ts h e.requestCmd e.requestBytes) :
    Encoded Ts h { s with session := session' } todo' :=
  ⟨pending, cached, enc.queued, entries, enc.honest⟩

/-- A session operation that registers nothing and leaves the cache alone. -/
theorem sessionStep (enc : Encoded Ts h s todo) (o : Op)
    (quiet : ∀ r, .registered r ∉ (Session.session.step s.session o).2)
    (cache : (Session.session.step s.session o).1.completedCache = s.session.completedCache) :
    Encoded Ts h { s with session := (Session.session.step s.session o).1 } todo := by
  apply enc.withSession
  · intro t p found
    rcases ReliableSession.step_pending s.session o t p found with ⟨q, before, same⟩ | ⟨r, registered, -⟩
    · have cmd : p.requestCmd = q.requestCmd := congrArg Registration.requestCmd same
      have bytes : p.requestBytes = q.requestBytes := congrArg Registration.requestBytes same
      rw [cmd, bytes]
      exact enc.pending t q before
    · exact absurd registered (quiet r)
  · rw [cache]
    exact enc.cached
  · exact enc.todo

/-- An entry comes into the queue. -/
theorem transmit (enc : Encoded Ts h s todo) {r : TxPath × Option TxEntry} (event : TxEntry → StackEvent)
    (enqueues : TxPath.Enqueues s.tx.queue r)
    (new : ∀ e, r.2 = some e → FrameOffered Ts h e.frame ∧ ∀ log, Honest Ts log (event e)) :
    Encoded Ts (h ++ (s.transmit r event).2) (s.transmit r event).1 todo := by
  have queued : Encoded Ts h (s.transmit r event).1 todo := by
    refine ⟨enc.pending, enc.cached, fun e member => ?_, enc.todo, enc.honest⟩
    rcases enqueues.mem member with there | pushed
    · exact enc.queued e there
    · exact (new e pushed).1
  apply queued.extend
  intro e logged
  obtain ⟨entry, pushed, rfl⟩ := Option.map_eq_some_iff.mp (Option.mem_toList.mp logged)
  exact (new entry pushed).2 _

/-- A packet is given to be sent. -/
theorem offer (enc : Encoded Ts h s todo) (content : Frame) : Encoded Ts (h ++ [.offered content]) s todo := by
  apply enc.extend
  intro e member
  rw [List.mem_singleton.mp member]
  trivial

/-- The frame of a packet given to be sent comes into the queue. -/
theorem enqueuePacket (enc : Encoded Ts h s todo) (packet : Packet Ts) (priority : Bool)
    (offered : .offered packet.content ∈ h) :
    Encoded Ts (h ++ (s.transmit (s.tx.enqueuePacket packet priority) (.enqueued packet.content)).2)
      (s.transmit (s.tx.enqueuePacket packet priority) (.enqueued packet.content)).1 todo := by
  apply enc.transmit _ (s.tx.enqueuePacket_enqueues packet priority)
  intro e pushed
  have bytes := (TxPath.enqueuePacket_frame pushed).2
  exact ⟨⟨_, packet, bytes, offered⟩, fun _ => ⟨_, bytes⟩⟩

theorem enqueueEntry {e : RetransmitEntry} (enc : Encoded Ts h s (e :: todo)) :
    Encoded Ts (h ++ (s.enqueueEntry e).2) (s.enqueueEntry e).1 todo := by
  have rest : Encoded Ts h s todo :=
    ⟨enc.pending, enc.cached, enc.queued, fun x member => enc.todo x (List.mem_cons_of_mem _ member), enc.honest⟩
  apply rest.transmit _ (s.tx.enqueuePendingFrame_enqueues Ts e.requestCmd e.requestBytes)
  intro entry pushed
  obtain ⟨packet, cmd, bytes, -, frame⟩ := TxPath.enqueuePendingFrame_frame pushed
  constructor
  · obtain ⟨packet', cmd', bytes', offered⟩ := enc.todo e List.mem_cons_self
    refine ⟨s.tx.serializer.sequence, packet', ?_, offered⟩
    rw [frame, cmd, bytes, cmd', bytes']
  · intro log
    refine ⟨s.tx.serializer.sequence, ?_⟩
    rw [frame, cmd, bytes]

/-! ### The application's calls -/

/-- A request keeps all its bytes in the session, if its frame has at most 256 bytes. -/
theorem stored_bytes {T : PacketTraits} (small : T.frameSize ≤ 256) {bytes : List UInt8}
    (size : bytes.length = T.size) : bytes.take MAX_PACKET_SIZE = bytes := by
  apply List.take_of_length_le
  simp only [PacketTraits.frameSize, DefaultProtocol.headerSize, DefaultProtocol.tailSize] at small
  simp only [MAX_PACKET_SIZE]
  omega

theorem send (enc : Encoded Ts h s todo) (small : ∀ T ∈ Ts.types, T.frameSize ≤ 256) (now : Time) (args : SendArgs Ts) :
    Encoded Ts (h ++ (s.send now args).2) (s.send now args).1 todo := by
  have txId := extractTxIdFromRaw_registration args s.session.nextTxId
  have size := PacketTraits.length_setTxId s.session.nextTxId args.request.length_bytes
  simp only [ProtocolStack.send, ReliableSession.takeTxId]
  generalize registered : args.registration s.session.nextTxId = r at txId
  have id : r.txId = s.session.nextTxId := by rw [← registered]; rfl
  have offered : PacketOffered Ts (h ++ [.offered ⟨r.requestCmd, r.requestBytes⟩]) r.requestCmd r.requestBytes := by
    subst registered
    exact ⟨⟨args.request.traits, _, args.request.mem, size⟩, rfl, rfl, by simp [Packet.content, SendArgs.registration]⟩
  have kept : r.requestBytes.take MAX_PACKET_SIZE = r.requestBytes := by
    subst registered
    exact stored_bytes (small _ args.request.mem) size
  have given := enc.offer ⟨r.requestCmd, r.requestBytes⟩
  have pending : Encoded Ts (h ++ [.offered ⟨r.requestCmd, r.requestBytes⟩])
      { s with session := { s.session with nextTxId := s.session.nextTxId + 1 }.registerPending now r } todo := by
    refine given.withSession (fun t p found => ?_) given.cached given.todo
    simp only [ReliableSession.registerPending, DenseMap.find?_insertOrAssign] at found
    split at found
    · cases found
      simp only [PendingEntry.ofRegistration, kept]
      exact offered
    · exact given.pending t p found
  have honest : ∀ e ∈ [StackEvent.session (.registered r)],
      Honest Ts (h ++ [.offered ⟨r.requestCmd, r.requestBytes⟩] ++ [.session (.registered r)]) e := by
    intro e member
    rw [List.mem_singleton.mp member]
    exact ⟨offered.mono _, by rw [id]; exact txId⟩
  have logged := pending.extend honest
  rw [List.append_assoc] at logged
  exact logged

/-- A response is cached as it was sent. -/
theorem cache (enc : Encoded Ts h s todo) (small : ∀ T ∈ Ts.types, T.frameSize ≤ 256) (requestCmd : UInt16)
    (txId : TransactionId) {response : Packet Ts} {seq : UInt8} (offered : .offered response.content ∈ h) :
    let frame := frameBytes seq response.traits.cmd response.bytes
    Encoded Ts h { s with session := s.session.cacheResponse requestCmd txId response.traits.cmd frame } todo := by
  intro frame
  refine enc.withSession enc.pending (fun k c found => ?_) enc.todo
  rcases ReliableSession.cacheResponse_cached found with ⟨-, rfl⟩ | ⟨-, before⟩
  · have whole : frame.take MAX_PACKET_SIZE = frame := by
      apply List.take_of_length_le
      rw [length_frameBytes_packet]
      exact small _ response.mem
    simp only [whole]
    exact ⟨seq, response, rfl, offered⟩
  · exact enc.cached k c before

/-- An event that says nothing about packets. -/
theorem quiet (enc : Encoded Ts h s todo) {e : StackEvent} (plain : ∀ log, Honest Ts log e) :
    Encoded Ts (h ++ [e]) s todo := by
  apply enc.extend
  intro x member
  rw [List.mem_singleton.mp member]
  exact plain _

/-! ### Runs -/

/-- The parts of every operation keep the packets encoded. -/
theorem keeps (small : ∀ T ∈ Ts.types, T.frameSize ≤ 256) :
    KeepsParts (fun _ : Act Ts => True) (fun _ => True) (fun _ _ => True) (fun s h _ todo => Encoded Ts h s todo) where
  closed _ _ _ := trivial
  note s h due todo e isNote enc := by
    apply enc.quiet
    cases e with
    | offered content | handler handler cmd txId data => exact fun _ => trivial
    | session e | enqueued content entry | replayed cmd txId entry | accepted entry => cases isNote
  handlers s h due todo handlers enc := ⟨enc.pending, enc.cached, enc.queued, enc.todo, enc.honest⟩
  setNextTxId s h due todo t enc := ⟨enc.pending, enc.cached, enc.queued, enc.todo, enc.honest⟩
  send s h due todo now args _ enc _ := enc.send small now args
  enqueuePacket s h due todo packet priority _ offered enc := enc.enqueuePacket packet priority offered
  cache s h due todo cmd txId response entry seq _ _ offered _ frame enc := by
    rw [frame]
    exact enc.cache small cmd txId offered
  onAck s h now txId enc :=
    enc.sessionStep (.onAck now txId) (fun r member => by cases member) (ReliableSession.step_device rfl).1
  onResponse s h cmd txId data enc := by
    have answered := enc.sessionStep (.onResponse cmd txId data) (by
      intro r member
      obtain ⟨_, -, -, same⟩ := ReliableSession.mem_onResponse member
      cases same) (ReliableSession.step_device rfl).1
    apply answered.extend
    intro e member
    obtain ⟨e', member', rfl⟩ := List.mem_map.mp member
    obtain ⟨_, -, -, rfl⟩ := ReliableSession.mem_onResponse member'
    trivial
  onRequest s h cmd txId enc := by
    have stepped := enc.sessionStep (.onRequest cmd txId) (by
      intro r member
      cases List.mem_singleton.mp member) (by
      show (s.session.onRequest cmd txId).1.completedCache = _
      rw [ReliableSession.onRequest_eq])
    exact stepped.quiet fun _ => trivial
  replay s h cmd txId cached found enc := by
    apply enc.transmit _ (TxPath.enqueuePrebuiltFrame_enqueues s.tx _ true)
    intro e pushed
    rw [TxPath.enqueuePrebuiltFrame_frame pushed]
    exact ⟨enc.cached _ _ found, fun _ => trivial⟩
  handOut s h now enc := by
    have stepped := enc.sessionStep (.nextOutbound now) (by
      intro r member
      obtain ⟨e, -, same⟩ := Option.map_eq_some_iff.mp (Option.mem_toList.mp member)
      cases same) (ReliableSession.step_device rfl).1
    have handed : Encoded Ts h { s with session := (s.session.nextOutbound now).1 }
        (s.session.nextOutbound now).2.toList := by
      refine stepped.withSession stepped.pending stepped.cached fun e out => ?_
      obtain ⟨t, p, found, rfl⟩ := ReliableSession.nextOutbound_mem (Option.mem_toList.mp out)
      exact enc.pending t p found
    apply handed.extend
    intro e member
    obtain ⟨e, -, rfl⟩ := Option.map_eq_some_iff.mp (Option.mem_toList.mp member)
    trivial
  enqueue _ _ _ _ _ enc := enc.enqueueEntry
  pollLoop s h now clock enc := by
    refine enc.withSession (fun t p found => ?_) enc.cached fun e retry => ?_
    · rw [ReliableSession.pollLoop_find] at found
      obtain ⟨q, before, kept⟩ := Option.bind_eq_some_iff.mp found
      rcases ReliableSession.pollKeeps_cases now clock (t, q) with ⟨-, keeps, -⟩ | ⟨-, keeps, -⟩ | ⟨-, -, keeps, -⟩ <;>
        rw [keeps] at kept <;> cases kept
      · exact enc.pending t _ before
      · exact enc.pending t q before
    · obtain ⟨t, p, found, -, rfl⟩ := ReliableSession.mem_retries retry
      exact enc.pending t p found
  error _ _ _ _ _ enc := enc.quiet fun _ => trivial
  skip _ _ _ _ _ enc := enc
  retransmitted s h todo enc := by
    apply enc.extend
    intro e member
    obtain ⟨_, -, rfl⟩ := List.mem_map.mp member
    trivial
  drainTx s h sendFrame enc := by
    have queue := s.tx.drainTx_queue sendFrame
    have rest : ∀ e ∈ (s.tx.drainTx sendFrame).1.queue, e ∈ s.tx.queue :=
      fun e member => queue ▸ List.mem_append_right _ member
    have taken : ∀ e, (s.tx.drainTx sendFrame).2 = some e → e ∈ s.tx.queue :=
      fun e accepted => queue ▸ List.mem_append_left _ (Option.mem_toList.mpr accepted)
    have drained : Encoded Ts h { s with tx := (s.tx.drainTx sendFrame).1 } [] :=
      ⟨enc.pending, enc.cached, fun e member => enc.queued e (rest e member), enc.todo, enc.honest⟩
    apply drained.extend
    intro e member
    obtain ⟨entry, accepted, rfl⟩ := Option.map_eq_some_iff.mp (Option.mem_toList.mp member)
    exact (enc.queued entry (taken entry accepted)).mono _

end Encoded

/-! ### The peer -/

/-- The frames `send_frame` has accepted, in order. -/
def acceptedFrames (log : List StackEvent) : List (List UInt8) :=
  log.filterMap fun e => match e with
    | .accepted entry => some entry.frame
    | _ => none

section Peer

variable {Ts : PacketTypes}

theorem acceptedFrames_offered {s : ProtocolStack Ts} {log : List StackEvent} {todo : List RetransmitEntry}
    (enc : Encoded Ts log s todo) : ∀ frame ∈ acceptedFrames log, FrameOffered Ts log frame := by
  intro frame member
  obtain ⟨e, logged, same⟩ := List.mem_filterMap.mp member
  have honest := enc.honest e logged
  match e with
  | .accepted entry =>
    rw [← Option.some.inj same]
    exact honest
  | .session _ | .offered _ | .enqueued _ _ | .replayed _ _ _ | .handler _ _ _ _ => cases same

/-- The packets behind a list of frames. -/
theorem exists_packets {log : List StackEvent} {frames : List (List UInt8)}
    (offered : ∀ frame ∈ frames, FrameOffered Ts log frame) :
    ∃ sent : List (UInt8 × Packet Ts), frames = sent.map (fun x => frameBytes x.1 x.2.traits.cmd x.2.bytes) ∧
      ∀ x ∈ sent, .offered x.2.content ∈ log := by
  induction frames with
  | nil => exact ⟨[], rfl, fun x member => by cases member⟩
  | cons frame frames ih =>
    obtain ⟨seq, packet, bytes, given⟩ := offered frame List.mem_cons_self
    obtain ⟨sent, rest, others⟩ := ih fun f member => offered f (List.mem_cons_of_mem _ member)
    refine ⟨(seq, packet) :: sent, by rw [bytes, rest, List.map_cons], fun x member => ?_⟩
    rcases List.mem_cons.mp member with rfl | later
    · exact given
    · exact others x later

/-- The frames of listed packets are read as their packets, and nothing is left over. -/
theorem scan_packets (sent : List (UInt8 × Packet Ts)) (small : ∀ T ∈ Ts.types, T.frameSize ≤ 256) :
    Ts.scan (sent.map fun x => frameBytes x.1 x.2.traits.cmd x.2.bytes).flatten =
      (sent.map fun x => x.2.content, []) := by
  have fits : ∀ f ∈ sent.map (fun x => (x.1, x.2.content)),
      f.2.payload.length ≤ Ts.maxPayload ∧ f.2.payload.length < 2 ^ 16 := by
    intro f member
    obtain ⟨x, -, rfl⟩ := List.mem_map.mp member
    have size : x.2.content.payload.length = x.2.traits.size := x.2.length_bytes
    have fits := small _ x.2.mem
    simp only [PacketTraits.frameSize] at fits
    rw [size]
    exact ⟨PacketTypes.size_le_maxPayload x.2.mem, by omega⟩
  have frames := scan_frames Ts fits
  rw [List.flatMap_map, List.map_map] at frames
  exact frames

end Peer

/-- **Decoding undoes encoding.** For a list whose frames have at most 256 bytes: when the
frames a stack has sent reach the parser of a peer that has nothing unread, the peer makes one
call for each, in order, with the command and the bytes of a packet that was given to be sent.
Each frame enqueued for a packet is the frame of that packet, a request carries the `tx_id` it
is registered under, and raw and typed serialization agree. -/
theorem decode_undoes_encode (target : Target) (Ts : PacketTypes) (small : ∀ T ∈ Ts.types, T.frameSize ≤ 256)
    (config : Config) (ops : List (StackOp Ts)) (before peerOps : List RxOp)
    (empty : ((receiver target Ts).exec (.init target Ts) before).parser.available = 0)
    (delivered : handedBytes ((receiver target Ts).trace ((receiver target Ts).exec (.init target Ts) before) peerOps) =
      (acceptedFrames ((stack Ts).trace (.init Ts config) ops)).flatten) :
    (∃ sent : List (UInt8 × Packet Ts),
      acceptedFrames ((stack Ts).trace (.init Ts config) ops) =
        sent.map (fun x => frameBytes x.1 x.2.traits.cmd x.2.bytes) ∧
      (∀ x ∈ sent, .offered x.2.content ∈ (stack Ts).trace (.init Ts config) ops) ∧
      callsOf ((receiver target Ts).trace ((receiver target Ts).exec (.init target Ts) before) peerOps) =
        sent.map fun x => .packet x.2.traits.cmd x.2.bytes) ∧
    (∀ content entry, .enqueued content entry ∈ (stack Ts).trace (.init Ts config) ops →
      ∃ seq, entry.frame = frameBytes seq content.cmd content.payload) ∧
    (∀ r, .session (.registered r) ∈ (stack Ts).trace (.init Ts config) ops →
      extractTxIdFromRaw Ts r.requestCmd r.requestBytes = r.txId) ∧
    ∀ (serializer : Serializer) (packet : Packet Ts),
      serializeRawToFrame Ts serializer packet.traits.cmd packet.bytes = serializePacketToFrame serializer packet := by
  have enc := (Encoded.keeps small).whole.run_any (Encoded.init Ts config) ops (fun o _ => o.meets_true) trivial
  refine ⟨?_, fun content entry logged => enc.honest _ logged, fun r logged => (enc.honest _ logged).2,
    serializeRawToFrame_packet⟩
  obtain ⟨sent, frames, offered⟩ := exists_packets (acceptedFrames_offered enc)
  refine ⟨sent, frames, offered, ?_⟩
  have follows := Receiving.run (Receiving.of_empty (receiver_follows target Ts before) empty) peerOps
  have scanned := scan_packets sent small
  rw [← frames, ← delivered] at scanned
  have presented := Follows.presented follows
  rw [scanned] at presented
  have listed : ∀ f ∈ sent.map (fun x => x.2.content), f.known Ts = true ∧ f.Sized Ts := by
    intro f member
    obtain ⟨x, -, rfl⟩ := List.mem_map.mp member
    have found : Ts.find x.2.content.cmd = some x.2.traits := PacketTypes.find_mem x.2.mem
    refine ⟨by rw [Frame.known, found]; rfl, fun T same => ?_⟩
    rw [found] at same
    rw [← Option.some.inj same]
    exact x.2.length_bytes
  rw [presented.exact fun f member => (listed f member).2, List.filter_eq_self.mpr fun f member => (listed f member).1,
    List.map_map]
  rfl

/-- A request and a broadcast, read by a peer through its DMA spans. -/
theorem decode_undoes_encode_request :
    let target : Target := ⟨32, by decide, fun _ => 0⟩
    let request : Packet Arm.armPackets := ⟨Arm.setZeroRequestPacket, [0, 0, 0, 0, 0xA5], by decide, rfl⟩
    let stop : Packet Arm.armPackets := ⟨Arm.emergencyStopPacket, [1], by decide, rfl⟩
    let ops : List (StackOp Arm.armPackets) := [.act (.send 0 ⟨request, rfl, 0x6108, true, true, 200000, 3⟩),
      .act (.broadcast stop), .sessionOutbound (fun _ => 0), .drainTx (some true), .drainTx (some true)]
    let log := (stack Arm.armPackets).trace (.init Arm.armPackets {}) ops
    let peer := (receiver target Arm.armPackets).trace (.init target Arm.armPackets) [.dma (acceptedFrames log).flatten]
    ∃ sent : List (UInt8 × Packet Arm.armPackets),
      acceptedFrames log = sent.map (fun x => frameBytes x.1 x.2.traits.cmd x.2.bytes) ∧
      (∀ x ∈ sent, .offered x.2.content ∈ log) ∧ callsOf peer = sent.map fun x => .packet x.2.traits.cmd x.2.bytes := by
  intro target request stop ops log peer
  have small : ∀ T ∈ Arm.armPackets.types, T.frameSize ≤ 256 := fun T member => (Arm.armPackets_layout T member).1
  have handed : handedBytes peer = (acceptedFrames log).flatten := by decide +kernel
  exact (decode_undoes_encode target Arm.armPackets small {} ops [] [.dma (acceptedFrames log).flatten] rfl handed).1

end FloridUsb.Stack
