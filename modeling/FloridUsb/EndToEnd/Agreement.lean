import FloridUsb.Session.Notify
import FloridUsb.Stack.Protocol

/-!
# Agreement of host and device

A host session and a device session joined by channels that lose, duplicate, delay and reorder
what is sent, but do not invent it: whatever has been sent once can arrive at any later time,
any number of times, or never. The handlers of the device answer their runs at any time, with
a response packet that carries the `tx_id` of the run.

Whenever the host takes a response for a request, the device has run the handler on exactly the
request's bytes, and the response is one that was given for such a run.
-/

namespace FloridUsb.EndToEnd
set_option autoImplicit false

open Lib Rpl Session Stack

/-- A run of a handler on a request. -/
structure Run where
  cmd : UInt16
  txId : TransactionId
  bytes : List UInt8
deriving DecidableEq

/-- The run that a request, as the host stores it, leads to. -/
def Run.of (r : Registration) : Run := ⟨r.requestCmd, r.txId, r.requestBytes.take MAX_PACKET_SIZE⟩

/-- Both parties, what has ever been sent, and the runs of the device's handlers. -/
structure Parties where
  host : ReliableSession
  device : ReliableSession
  requests : List RetransmitEntry := []
  acks : List TransactionId := []
  /-- Response frames. -/
  responses : List (List UInt8) := []
  runs : List Run := []

inductive LinkEvent where
  | host (e : Session.Event)
  | ran (run : Run)
  /-- A response is given for a run. -/
  | answered (run : Run) (response : Frame)
deriving DecidableEq

inductive LinkOp (Ts : PacketTypes) where
  | registerPending (now : Time) (r : Registration)
  | nextOutbound (now : Time)
  | poll (now : Time) (clock : TransactionId → Time) (reentry : TransactionId → List (Time × Registration))
  | deliverRequest (e : RetransmitEntry)
  | deliverAck (now : Time) (txId : TransactionId)
  | deliverResponse (frame : List UInt8)
  /-- The response is sent under a sequence number of the device's serializer. -/
  | answer (run : Run) (seq : UInt8) (response : Packet Ts)

/-- What an event of the host puts on the channel. -/
def sentBy : Session.Event → Option RetransmitEntry
  | .handedOut e => some e
  | .retransmitted e => some e
  | _ => none

namespace Parties

variable {Ts : PacketTypes} (handled : UInt16 → Bool) (s : Parties)

def init (hostConfig deviceConfig : Config) : Parties where
  host := .init hostConfig
  device := .init deviceConfig

/-- A step of the host session. What it sends goes onto the channel. -/
def hostStep (o : Op) : Parties × List LinkEvent :=
  let r := session.step s.host o
  ({ s with host := r.1, requests := s.requests ++ r.2.filterMap sentBy }, r.2.map .host)

/-- `handle_request_packet` of the device: the ACK, and the cached response or a run of the
handler. -/
def takeRequest (e : RetransmitEntry) : Parties × List LinkEvent :=
  if e.txId = 0 then (s, [])
  else
    let r := s.device.onRequest e.requestCmd e.txId
    let acked := { s with device := r.1, acks := s.acks ++ [e.txId] }
    if r.2.isDuplicate then
      match r.2.cached with
      | some cached =>
        if cached.responseBytes.length > 0 then ({ acked with responses := s.responses ++ [cached.responseBytes] }, [])
        else (acked, [])
      | none => (acked, [])
    else if handled e.requestCmd then
      let run : Run := ⟨e.requestCmd, e.txId, e.requestBytes⟩
      ({ acked with runs := s.runs ++ [run] }, [.ran run])
    else (acked, [])

/-- `handle_response_packet` of the host, for the packet the frame carries. -/
def takeResponse (Ts : PacketTypes) (frame : List UInt8) : Parties × List LinkEvent :=
  match readFrame Ts frame with
  | none => (s, [])
  | some f =>
    let txId := extractTxIdFromRaw Ts f.cmd f.payload
    if txId = 0 then (s, []) else s.hostStep (.onResponse f.cmd txId f.payload)

/-- `send_response_and_cache` of the device, whose frame is enqueued. -/
def respond (run : Run) (seq : UInt8) (response : Packet Ts) : Parties × List LinkEvent :=
  let frame := frameBytes seq response.traits.cmd response.bytes
  ({ s with
      device := s.device.cacheResponse run.cmd run.txId response.traits.cmd frame
      responses := s.responses ++ [frame] }, [.answered run response.content])

def step : LinkOp Ts → Parties × List LinkEvent
  | .registerPending now r => s.hostStep (.registerPending now r)
  | .nextOutbound now => s.hostStep (.nextOutbound now)
  | .poll now clock reentry => s.hostStep (.poll now clock reentry)
  | .deliverRequest e => if e ∈ s.requests then s.takeRequest handled e else (s, [])
  | .deliverAck now txId => if txId ∈ s.acks then s.hostStep (.onAck now txId) else (s, [])
  | .deliverResponse frame => if frame ∈ s.responses then s.takeResponse Ts frame else (s, [])
  | .answer run seq response =>
    -- a handler answers its own runs, under their `tx_id`
    if run ∈ s.runs ∧ response.traits.getTxId response.bytes = run.txId then s.respond run seq response else (s, [])

end Parties

/-- Host and device as one machine; `handled` are the commands that have a handler. -/
def link (Ts : PacketTypes) (handled : UInt16 → Bool) : Machine Parties (LinkOp Ts) LinkEvent where
  step := Parties.step handled

def LinkEvent.host? : LinkEvent → Option Session.Event
  | .host e => some e
  | _ => none

/-- The log of the host session. -/
def hostLog (log : List LinkEvent) : List Session.Event := log.filterMap LinkEvent.host?

@[simp] theorem hostLog_append (a b : List LinkEvent) :
    hostLog (a ++ b) = hostLog a ++ hostLog b := List.filterMap_append

@[simp] theorem hostLog_host (log : List Session.Event) : hostLog (log.map .host) = log := by
  induction log with
  | nil => rfl
  | cons e log ih => exact congrArg (e :: ·) ih

theorem mem_hostLog {log : List LinkEvent} {e : Session.Event} : e ∈ hostLog log ↔ .host e ∈ log := by
  rw [hostLog, List.mem_filterMap]
  constructor
  · rintro ⟨x, member, same⟩
    cases x with
    | host e' =>
      cases same
      exact member
    | ran run => cases same
    | answered run response => cases same
  · exact fun member => ⟨_, member, rfl⟩

/-! ### What the parties hold -/

/-- Where everything comes from that is on the channel, has run, or is cached. -/
structure Sourced (requested ran : Run → Prop) (answer : List UInt8 → Prop) (s : Parties) : Prop where
  requests : ∀ e ∈ s.requests, requested ⟨e.requestCmd, e.txId, e.requestBytes⟩
  runs : ∀ run ∈ s.runs, ran run
  responses : ∀ frame ∈ s.responses, answer frame
  cached : ∀ k c, s.device.completedCache.find? k = some c → answer c.responseBytes

namespace Sourced

variable {requested ran requested' ran' : Run → Prop} {answer answer' : List UInt8 → Prop} {s : Parties}

theorem init (hostConfig deviceConfig : Config) : Sourced requested ran answer (.init hostConfig deviceConfig) where
  requests e member := by cases member
  runs run member := by cases member
  responses frame member := by cases member
  cached k c found := by cases found

theorem mono (from_ : Sourced requested ran answer s) (requests : ∀ run, requested run → requested' run)
    (runs : ∀ run, ran run → ran' run) (answers : ∀ frame, answer frame → answer' frame) :
    Sourced requested' ran' answer' s where
  requests e member := requests _ (from_.requests e member)
  runs run member := runs _ (from_.runs run member)
  responses frame member := answers _ (from_.responses frame member)
  cached k c found := answers _ (from_.cached k c found)

theorem hostStep (from_ : Sourced requested ran answer s) (o : Op)
    (sent : ∀ e, .handedOut e ∈ (session.step s.host o).2 ∨ .retransmitted e ∈ (session.step s.host o).2 →
      requested ⟨e.requestCmd, e.txId, e.requestBytes⟩) :
    Sourced requested ran answer (s.hostStep o).1 := by
  refine ⟨fun e member => ?_, from_.runs, from_.responses, from_.cached⟩
  rcases List.mem_append.mp member with old | new
  · exact from_.requests e old
  · obtain ⟨ev, logged, out⟩ := List.mem_filterMap.mp new
    apply sent
    cases ev with
    | handedOut e' =>
      cases out
      exact .inl logged
    | retransmitted e' =>
      cases out
      exact .inr logged
    | registered _ | response _ _ _ | error _ _ | requested _ _ _ => cases out

theorem takeRequest (from_ : Sourced requested ran answer s) (handled : UInt16 → Bool) {e : RetransmitEntry}
    (runs : ∀ run, .ran run ∈ (s.takeRequest handled e).2 → ran run) :
    Sourced requested ran answer (s.takeRequest handled e).1 := by
  have cache : (s.device.onRequest e.requestCmd e.txId).1.completedCache = s.device.completedCache := by
    rw [ReliableSession.onRequest_eq]
  have acked : Sourced requested ran answer
      { s with device := (s.device.onRequest e.requestCmd e.txId).1, acks := s.acks ++ [e.txId] } := by
    refine ⟨from_.requests, from_.runs, from_.responses, fun k c found => ?_⟩
    rw [cache] at found
    exact from_.cached k c found
  unfold Parties.takeRequest at runs ⊢
  dsimp only at runs ⊢
  split
  · exact from_
  rename_i reliable
  rw [if_neg reliable] at runs
  split
  · split
    · rename_i cached found
      split
      · -- the cached response goes out again
        refine ⟨acked.requests, acked.runs, fun frame member => ?_, acked.cached⟩
        rcases List.mem_append.mp member with old | new
        · exact acked.responses frame old
        · rw [List.mem_singleton.mp new]
          exact from_.cached _ _ (ReliableSession.onRequest_cached found)
      · exact acked
    · exact acked
  rename_i new
  rw [if_neg new] at runs
  split
  · rename_i has
    rw [if_pos has] at runs
    refine ⟨acked.requests, fun run member => ?_, acked.responses, acked.cached⟩
    rcases List.mem_append.mp member with old | here
    · exact acked.runs run old
    · rw [List.mem_singleton.mp here]
      exact runs _ List.mem_cons_self
  · exact acked

/-- A response is cached as far as it fits. -/
theorem respond {Ts : PacketTypes} (from_ : Sourced requested ran answer s) {run : Run} {seq : UInt8}
    {response : Packet Ts}
    (whole : answer (frameBytes seq response.traits.cmd response.bytes))
    (kept : answer ((frameBytes seq response.traits.cmd response.bytes).take MAX_PACKET_SIZE)) :
    Sourced requested ran answer (s.respond run seq response).1 := by
  refine ⟨from_.requests, from_.runs, fun frame member => ?_, fun k c found => ?_⟩
  · rcases List.mem_append.mp member with old | new
    · exact from_.responses frame old
    · rw [List.mem_singleton.mp new]
      exact whole
  · rcases ReliableSession.cacheResponse_cached found with ⟨-, rfl⟩ | ⟨-, before⟩
    · exact kept
    · exact from_.cached k c before

end Sourced

theorem Parties.takeRequest_host (s : Parties) {handled : UInt16 → Bool} {e : RetransmitEntry} :
    (s.takeRequest handled e).1.host = s.host := by
  unfold Parties.takeRequest
  dsimp only
  split
  · rfl
  split
  · split
    · split <;> rfl
    · rfl
  · split <;> rfl

/-- The handler runs on the request that has arrived. -/
theorem mem_takeRequest {s : Parties} {handled : UInt16 → Bool} {e : RetransmitEntry} {ev : LinkEvent}
    (logged : ev ∈ (s.takeRequest handled e).2) : ev = .ran ⟨e.requestCmd, e.txId, e.requestBytes⟩ := by
  simp only [Parties.takeRequest] at logged
  split at logged
  · cases logged
  split at logged
  · split at logged
    · split at logged <;> cases logged
    · cases logged
  · split at logged
    · exact List.mem_singleton.mp logged
    · cases logged

/-! ### What is on the channel -/

section Agreement

variable (Ts : PacketTypes) (log : List LinkEvent)

/-- The run is one on a request that the host registered. -/
def Requested (run : Run) : Prop := ∃ r, .host (.registered r) ∈ log ∧ run = .of r

/-- The frame is that of a response given for a run. -/
def Answer (frame : List UInt8) : Prop :=
  ∃ (run : Run) (seq : UInt8) (response : Packet Ts), frame = frameBytes seq response.traits.cmd response.bytes ∧
    response.traits.frameSize ≤ 256 ∧ response.traits.getTxId response.bytes = run.txId ∧
    .answered run response.content ∈ log ∧ .ran run ∈ log ∧ Requested log run

/-- Everything that is sent, run and cached goes back to a registration of the host. -/
structure Agrees (hostConfig : Config) (s : Parties) : Prop where
  host : ∃ ops, s.host = session.exec (.init hostConfig) ops ∧ hostLog log = session.trace (.init hostConfig) ops
  requests : ∀ e ∈ s.requests, Requested log ⟨e.requestCmd, e.txId, e.requestBytes⟩
  runs : ∀ run ∈ s.runs, .ran run ∈ log ∧ Requested log run
  responses : ∀ frame ∈ s.responses, Answer Ts log frame
  cached : ∀ k c, s.device.completedCache.find? k = some c → Answer Ts log c.responseBytes

end Agreement

variable {Ts : PacketTypes} {log : List LinkEvent}

theorem Requested.mono {run : Run} (requested : Requested log run) (ev : List LinkEvent) :
    Requested (log ++ ev) run := by
  obtain ⟨r, registered, same⟩ := requested
  exact ⟨r, List.mem_append_left _ registered, same⟩

theorem Answer.mono {frame : List UInt8} (answer : Answer Ts log frame) (ev : List LinkEvent) :
    Answer Ts (log ++ ev) frame := by
  obtain ⟨run, seq, response, bytes, small, txId, answered, ran, requested⟩ := answer
  exact ⟨run, seq, response, bytes, small, txId, List.mem_append_left _ answered, List.mem_append_left _ ran,
    requested.mono ev⟩

namespace Agrees

variable {hostConfig : Config} {s : Parties}

theorem sourced (a : Agrees Ts log hostConfig s) (ev : List LinkEvent) :
    Sourced (Requested (log ++ ev)) (fun run => .ran run ∈ log ++ ev ∧ Requested (log ++ ev) run)
      (Answer Ts (log ++ ev)) s where
  requests e member := (a.requests e member).mono ev
  runs run member := ⟨List.mem_append_left _ (a.runs run member).1, (a.runs run member).2.mono ev⟩
  responses frame member := (a.responses frame member).mono ev
  cached k c found := (a.cached k c found).mono ev

theorem init (Ts : PacketTypes) (hostConfig deviceConfig : Config) :
    Agrees Ts [] hostConfig (.init hostConfig deviceConfig) where
  host := ⟨[], rfl, rfl⟩
  requests e member := by cases member
  runs run member := by cases member
  responses frame member := by cases member
  cached k c found := by cases found

/-- A step of the device, which the host does not log. -/
theorem device (a : Agrees Ts log hostConfig s) {t : Parties} {ev : List LinkEvent} (host : t.host = s.host)
    (silent : hostLog ev = [])
    (from_ : Sourced (Requested (log ++ ev)) (fun run => .ran run ∈ log ++ ev ∧ Requested (log ++ ev) run)
      (Answer Ts (log ++ ev)) t) : Agrees Ts (log ++ ev) hostConfig t := by
  refine ⟨?_, from_.requests, from_.runs, from_.responses, from_.cached⟩
  rw [host, hostLog_append, silent, List.append_nil]
  exact a.host

theorem hostStep (a : Agrees Ts log hostConfig s) (o : Op) :
    Agrees Ts (log ++ (s.hostStep o).2) hostConfig (s.hostStep o).1 := by
  obtain ⟨ops, state, trace⟩ := a.host
  have from_ := (a.sourced (s.hostStep o).2).hostStep o fun e out => by
    -- what is sent is pending, and what is pending was registered
    obtain ⟨t, p, found, same⟩ := ReliableSession.step_sends out
    rw [state] at found
    obtain ⟨r, registered, -, stored⟩ := ReliableSession.pending_registered hostConfig ops t p found
    rw [← trace] at registered
    refine ⟨r, List.mem_append_left _ (mem_hostLog.mp registered), ?_⟩
    obtain ⟨id, cmd, -, bytes, -⟩ := Registration.mk.inj stored
    rw [same, PendingEntry.toRetransmit, id, cmd, bytes]
    rfl
  refine ⟨⟨ops ++ [o], ?_, ?_⟩, from_.requests, from_.runs, from_.responses, from_.cached⟩
  · rw [session.exec_snoc, ← state]
    rfl
  · rw [session.trace_snoc, ← state, ← trace, hostLog_append]
    exact congrArg _ (hostLog_host _)

theorem takeRequest (a : Agrees Ts log hostConfig s) (handled : UInt16 → Bool) {e : RetransmitEntry}
    (sent : e ∈ s.requests) :
    Agrees Ts (log ++ (s.takeRequest handled e).2) hostConfig (s.takeRequest handled e).1 := by
  refine a.device s.takeRequest_host ?_ ?_
  · rw [hostLog, List.filterMap_eq_nil_iff]
    intro ev logged
    rw [mem_takeRequest logged]
    rfl
  · apply (a.sourced _).takeRequest
    intro run logged
    cases mem_takeRequest logged
    exact ⟨List.mem_append_right _ logged, (a.requests e sent).mono _⟩

theorem respond (a : Agrees Ts log hostConfig s) {run : Run} (ran : run ∈ s.runs) (seq : UInt8) (response : Packet Ts)
    (small : response.traits.frameSize ≤ 256) (own : response.traits.getTxId response.bytes = run.txId) :
    Agrees Ts (log ++ (s.respond run seq response).2) hostConfig (s.respond run seq response).1 := by
  have known := (a.sourced (s.respond run seq response).2).runs run ran
  have answer : Answer Ts (log ++ (s.respond run seq response).2) (frameBytes seq response.traits.cmd response.bytes) :=
    ⟨run, seq, response, rfl, small, own, List.mem_append_right _ List.mem_cons_self, known.1, known.2⟩
  refine a.device ?_ ?_ ?_
  · rfl
  · rfl
  · apply (a.sourced _).respond answer
    rw [List.take_of_length_le]
    · exact answer
    · rw [length_frameBytes_packet]
      exact small

/-- Every operation keeps the agreement. -/
theorem step (a : Agrees Ts log hostConfig s) (handled : UInt16 → Bool) (o : LinkOp Ts)
    (small : ∀ run seq response, o = .answer run seq response → response.traits.frameSize ≤ 256) :
    Agrees Ts (log ++ ((link Ts handled).step s o).2) hostConfig ((link Ts handled).step s o).1 := by
  have nothing : Agrees Ts (log ++ []) hostConfig s := by rwa [List.append_nil]
  show Agrees Ts (log ++ (s.step handled o).2) hostConfig (s.step handled o).1
  cases o with
  | registerPending now r => exact a.hostStep _
  | nextOutbound now => exact a.hostStep _
  | poll now clock reentry => exact a.hostStep _
  | deliverRequest e =>
    simp only [Parties.step]
    split
    · rename_i sent
      exact a.takeRequest handled sent
    · exact nothing
  | deliverAck now txId =>
    simp only [Parties.step]
    split
    · exact a.hostStep _
    · exact nothing
  | deliverResponse frame =>
    simp only [Parties.step, Parties.takeResponse]
    split
    · split
      · exact nothing
      · split
        · exact nothing
        · exact a.hostStep _
    · exact nothing
  | answer run seq response =>
    simp only [Parties.step]
    split
    · rename_i own
      exact a.respond own.1 seq response (small run seq response rfl) own.2
    · exact nothing

end Agrees

/-! ### Agreement -/

/-- A response frame is read as its packet, under the `tx_id` it carries. -/
theorem readFrame_packet (seq : UInt8) (packet : Packet Ts) (small : packet.traits.frameSize ≤ 256) :
    readFrame Ts (frameBytes seq packet.traits.cmd packet.bytes) = some packet.content ∧
      extractTxIdFromRaw Ts packet.content.cmd packet.content.payload = packet.traits.getTxId packet.bytes := by
  constructor
  · apply readFrame_frameBytes
    omega
  · exact extractTxIdFromRaw_mem packet.mem packet.length_bytes

/-- A response callback of the host answers a frame that has arrived. -/
theorem step_responds {s : Parties} {handled : UInt16 → Bool} {o : LinkOp Ts} {t : TransactionId} {cmd : UInt16}
    {bytes : List UInt8} (called : .host (.response t cmd bytes) ∈ ((link Ts handled).step s o).2) :
    ∃ frame f p, frame ∈ s.responses ∧ readFrame Ts frame = some f ∧ f.cmd = cmd ∧ f.payload = bytes ∧
      s.host.pendingByTx.find? (extractTxIdFromRaw Ts f.cmd f.payload) = some p ∧ p.responseCmd = cmd ∧ p.txId = t := by
  have host : ∀ {o : Op}, .host (.response t cmd bytes) ∈ (s.hostStep o).2 → ∃ txId p, o = .onResponse cmd txId bytes ∧
      s.host.pendingByTx.find? txId = some p ∧ p.responseCmd = cmd ∧ p.txId = t := by
    intro o logged
    obtain ⟨e, member, same⟩ := List.mem_map.mp logged
    cases same
    exact ReliableSession.step_responds member
  have never : ∀ {o : Op}, (∀ txId, o ≠ .onResponse cmd txId bytes) →
      .host (.response t cmd bytes) ∉ (s.hostStep o).2 := by
    intro o other logged
    obtain ⟨txId, -, same, -⟩ := host logged
    exact other txId same
  change .host (.response t cmd bytes) ∈ (s.step handled o).2 at called
  cases o with
  | registerPending now r => exact absurd called (never (by simp))
  | nextOutbound now => exact absurd called (never (by simp))
  | poll now clock reentry => exact absurd called (never (by simp))
  | deliverRequest e =>
    simp only [Parties.step, Parties.takeRequest] at called
    split at called
    · split at called
      · cases called
      split at called
      · split at called
        · split at called <;> cases called
        · cases called
      · split at called
        · cases List.mem_singleton.mp called
        · cases called
    · cases called
  | deliverAck now txId =>
    simp only [Parties.step] at called
    split at called
    · exact absurd called (never (by simp))
    · cases called
  | deliverResponse frame =>
    simp only [Parties.step, Parties.takeResponse] at called
    split at called
    · rename_i arrived
      split at called
      · cases called
      · rename_i f read
        split at called
        · cases called
        · obtain ⟨txId, p, same, found, fits, id⟩ := host called
          obtain ⟨rfl, rfl, rfl⟩ := Op.onResponse.inj same
          exact ⟨frame, f, p, arrived, read, rfl, rfl, found, fits, id⟩
    · cases called
  | answer run seq response =>
    simp only [Parties.step, Parties.respond] at called
    split at called
    · cases List.mem_singleton.mp called
    · cases called

/-- **End-to-end agreement.** In every run in which the host registers each transaction at most
once, requests and response frames have at most 256 bytes: when the host invokes the response
callback of a request, the device has already run the handler on exactly the command,
transaction and bytes the host registered, and the response is one given for this run; and no
transaction gets a second callback. -/
theorem agreement (Ts : PacketTypes) (handled : UInt16 → Bool) (hostConfig deviceConfig : Config)
    (ops : List (LinkOp Ts))
    (once : RegisteredOnce (hostLog ((link Ts handled).trace (.init hostConfig deviceConfig) ops)))
    (short : ∀ r, .host (.registered r) ∈ (link Ts handled).trace (.init hostConfig deviceConfig) ops →
      r.requestBytes.length ≤ 256)
    (small : ∀ run seq response, .answer run seq response ∈ ops → response.traits.frameSize ≤ 256) :
    (∀ pre o post, ops = pre ++ o :: post → ∀ t cmd b,
      .host (.response t cmd b) ∈ ((link Ts handled).step
        ((link Ts handled).exec (.init hostConfig deviceConfig) pre) o).2 →
      ∃ r, .host (.registered r) ∈ (link Ts handled).trace (.init hostConfig deviceConfig) pre ∧ r.txId = t ∧
        .ran ⟨r.requestCmd, t, r.requestBytes⟩ ∈ (link Ts handled).trace (.init hostConfig deviceConfig) pre ∧
        .answered ⟨r.requestCmd, t, r.requestBytes⟩ ⟨r.responseCmd, b⟩ ∈
          (link Ts handled).trace (.init hostConfig deviceConfig) pre) ∧
    ∀ t, (callbacksFor t (hostLog ((link Ts handled).trace (.init hostConfig deviceConfig) ops))).length ≤ 1 := by
  have agrees : ∀ front, (∀ o ∈ front, o ∈ ops) →
      Agrees Ts ((link Ts handled).trace (.init hostConfig deviceConfig) front)
      hostConfig ((link Ts handled).exec (.init hostConfig deviceConfig) front) := by
    intro front within
    apply (link Ts handled).run_invariant_of (I := fun s log => Agrees Ts log hostConfig s)
      (P := fun o => ∀ run seq response, o = .answer run seq response → response.traits.frameSize ≤ 256)
    · exact Agrees.init Ts hostConfig deviceConfig
    · exact fun _ _ o fits a => a.step handled o fits
    · rintro o member run seq response rfl
      exact small run seq response (within _ member)
  constructor
  · rintro pre o post rfl t cmd b called
    have a := agrees pre fun x member => List.mem_append_left _ member
    rw [(link Ts handled).trace_append] at once short
    generalize (link Ts handled).exec (.init hostConfig deviceConfig) pre = s at a called
    generalize (link Ts handled).trace (.init hostConfig deviceConfig) pre = log at a once short ⊢
    obtain ⟨frame, f, p, arrived, read, sameCmd, samePayload, found, fits, id⟩ := step_responds called
    obtain ⟨run, seq, response, rfl, fitsFrame, txId, answered, ran, r', registered', rfl⟩ := a.responses frame arrived
    -- the frame carries the response and the transaction of the run
    obtain ⟨content, extracted⟩ := readFrame_packet seq response fitsFrame
    obtain rfl := Option.some.inj (read.symm.trans content)
    rw [extracted, txId] at found
    -- the request it finds is the one the run was made for
    obtain ⟨hostOps, state, trace⟩ := a.host
    rw [state] at found
    obtain ⟨r, registered, idOf, stored⟩ := ReliableSession.pending_registered hostConfig hostOps _ p found
    rw [← trace] at registered
    rw [hostLog_append] at once
    obtain rfl := once.left.unique registered (mem_hostLog.mpr registered') idOf
    obtain ⟨sameTx, -, sameResponse, -⟩ := Registration.mk.inj stored
    have sameTx : r.txId = t := by rw [← id, sameTx]
    have logged := mem_hostLog.mp registered
    have whole : Run.of r = ⟨r.requestCmd, t, r.requestBytes⟩ := by
      have size : r.requestBytes.length ≤ MAX_PACKET_SIZE := short r (List.mem_append_left _ logged)
      rw [Run.of, List.take_of_length_le size, sameTx]
    have response_eq : response.content = ⟨r.responseCmd, b⟩ := by
      have cmdOf : response.content.cmd = r.responseCmd := by rw [sameCmd, ← fits, sameResponse]
      rw [← cmdOf, ← samePayload]
    rw [whole] at ran answered
    rw [response_eq] at answered
    exact ⟨r, logged, sameTx, ran, answered⟩
  · intro t
    obtain ⟨hostOps, -, trace⟩ := (agrees ops fun _ member => member).host
    rw [trace] at once ⊢
    have distinct := (notified_run hostConfig hostOps once).2.once
    rw [List.append_nil] at distinct
    rw [length_callbacksFor]
    exact List.nodup_iff_count_le_one.mp distinct t

/-- A request, its run, and its answer. -/
theorem agreement_setZero :
    let request : Registration := ⟨1, 0x6107, 0x6108, [1, 0, 0, 0, 5], true, true, 200000, 3⟩
    let response : Packet Arm.armPackets := ⟨Arm.setZeroResponsePacket, [1, 0, 0, 0, 0], by decide, rfl⟩
    let pre : List (LinkOp Arm.armPackets) := [.registerPending 0 request, .nextOutbound 0,
      .deliverRequest ⟨1, 0x6107, [1, 0, 0, 0, 5]⟩, .answer ⟨0x6107, 1, [1, 0, 0, 0, 5]⟩ 0 response]
    let last : LinkOp Arm.armPackets := .deliverResponse (frameBytes 0 0x6108 [1, 0, 0, 0, 0])
    let log := (link Arm.armPackets fun _ => true).trace (.init {} {}) pre
    (∃ r, .host (.registered r) ∈ log ∧ r.txId = 1 ∧ .ran ⟨r.requestCmd, 1, r.requestBytes⟩ ∈ log ∧
      .answered ⟨r.requestCmd, 1, r.requestBytes⟩ ⟨r.responseCmd, [1, 0, 0, 0, 0]⟩ ∈ log) ∧
      (callbacksFor 1 (hostLog ((link Arm.armPackets fun _ => true).trace (.init {} {})
        (pre ++ [last])))).length ≤ 1 := by
  intro request response pre last log
  have whole : (link Arm.armPackets fun _ => true).trace (.init {} {}) (pre ++ [last]) =
      [.host (.registered request), .host (.handedOut ⟨1, 0x6107, [1, 0, 0, 0, 5]⟩), .ran ⟨0x6107, 1, [1, 0, 0, 0, 5]⟩,
        .answered ⟨0x6107, 1, [1, 0, 0, 0, 5]⟩ response.content, .host (.response 1 0x6108 [1, 0, 0, 0, 0])] := by
    decide +kernel
  have once : RegisteredOnce (hostLog ((link Arm.armPackets fun _ => true).trace (.init {} {}) (pre ++ [last]))) := by
    rw [whole]
    exact List.nodup_singleton _
  have short : ∀ r, .host (.registered r) ∈ (link Arm.armPackets fun _ => true).trace (.init {} {}) (pre ++ [last]) →
      r.requestBytes.length ≤ 256 := by
    rw [whole]
    intro r registered
    have same : r = request := by simpa using registered
    rw [same]
    decide
  have small : ∀ run seq answer, .answer run seq answer ∈ pre ++ [last] → answer.traits.frameSize ≤ 256 :=
    fun _ _ answer _ => (Arm.armPackets_layout answer.traits answer.mem).1
  have called : .host (.response 1 0x6108 [1, 0, 0, 0, 0]) ∈ ((link Arm.armPackets fun _ => true).step
      ((link Arm.armPackets fun _ => true).exec (.init {} {}) pre) last).2 := by decide +kernel
  obtain ⟨agrees, atMostOnce⟩ := agreement Arm.armPackets (fun _ => true) {} {} (pre ++ [last]) once short small
  exact ⟨agrees pre last [] rfl 1 0x6108 [1, 0, 0, 0, 0] called, atMostOnce 1⟩

end FloridUsb.EndToEnd
