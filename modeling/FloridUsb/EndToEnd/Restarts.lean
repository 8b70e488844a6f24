import FloridUsb.EndToEnd.Agreement

/-!
# Host restarts

One device session outlives many host sessions. A new host session starts numbering at 1 again,
unless `set_next_tx_id` is called, and nothing in the protocol names a session: the device takes a
request whose command and `tx_id` it still remembers for a duplicate, and answers it from its cache.

The line keeps the order of what it carries and may lose any of it; here the channels of `Parties`
hold what is on the way, and `runs` what the handlers of the device may still answer.

Whatever sessions there have been, the device has seen the last 64 keys that it has accepted
(`seen_iff`).
-/

namespace FloridUsb.EndToEnd
set_option autoImplicit false

open Lib Rpl Session Stack

/-- The parties, with the number of the host session that is at it now. -/
structure Restarts where
  era : Nat
  parties : Parties

inductive RestartOp (Ts : PacketTypes) where
  /-- The host session is destroyed, and another one constructed. -/
  | restart (config : Config)
  | setNextTxId (nextTxId : TransactionId)
  /-- `next_tx_id`, and `register_pending` of the request made under it. -/
  | send (now : Time) (request : TransactionId → Registration)
  | registerPending (now : Time) (r : Registration)
  | nextOutbound (now : Time)
  | poll (now : Time) (clock : TransactionId → Time) (reentry : TransactionId → List (Time × Registration))
  /-- The first request on the way arrives. -/
  | deliverRequest
  | deliverAck (now : Time)
  | deliverResponse
  | answer (run : Run) (seq : UInt8) (response : Packet Ts)
  /-- The run is not answered any more. -/
  | finish (run : Run)
  | loseRequest (place : Nat)
  | loseAck (place : Nat)
  | loseResponse (place : Nat)

inductive RestartEvent where
  | link (e : LinkEvent)
  /-- The device takes a request, whose key it may have seen, and have a response cached for. -/
  | taken (e : RetransmitEntry) (seen cached : Bool)
deriving DecidableEq

/-- An event, with the number of the host session in whose time it falls. -/
abbrev EraEvent := Nat × RestartEvent

/-- What the device remembers of the key of a request that it takes. -/
def takes (device : ReliableSession) (e : RetransmitEntry) : RestartEvent :=
  let key := composeDedupKey e.requestCmd e.txId
  .taken e (decide (key ∈ device.seenRequests.ids)) (device.completedCache.find? key).isSome

namespace Restarts

variable {Ts : PacketTypes} (handled : UInt16 → Bool) (s : Restarts)

def init (hostConfig deviceConfig : Config) : Restarts := ⟨0, .init hostConfig deviceConfig⟩

/-- What the parties do in the time of a session. -/
def during (r : Parties × List LinkEvent) : Restarts × List EraEvent :=
  (⟨s.era, r.1⟩, r.2.map fun e => (s.era, .link e))

/-- Something is gone from the line, or from the runs. -/
def without (parties : Parties) : Restarts × List EraEvent := (⟨s.era, parties⟩, [])

def step : RestartOp Ts → Restarts × List EraEvent
  | .restart config => (⟨s.era + 1, { s.parties with host := .init config }⟩, [])
  | .setNextTxId nextTxId => (⟨s.era, { s.parties with host := s.parties.host.setNextTxId nextTxId }⟩, [])
  | .send now request =>
    let taken := s.parties.host.takeTxId
    let parties : Parties := { s.parties with host := taken.1 }
    s.during (parties.hostStep (.registerPending now { request taken.2 with txId := taken.2 }))
  | .registerPending now r => s.during (s.parties.hostStep (.registerPending now r))
  | .nextOutbound now => s.during (s.parties.hostStep (.nextOutbound now))
  | .poll now clock reentry => s.during (s.parties.hostStep (.poll now clock reentry))
  | .deliverRequest =>
    match s.parties.requests with
    | [] => s.without s.parties
    | e :: rest =>
      let r := s.during (Parties.takeRequest handled { s.parties with requests := rest } e)
      (r.1, (s.era, takes s.parties.device e) :: r.2)
  | .deliverAck now =>
    match s.parties.acks with
    | [] => s.without s.parties
    | txId :: rest => s.during (Parties.hostStep { s.parties with acks := rest } (.onAck now txId))
  | .deliverResponse =>
    match s.parties.responses with
    | [] => s.without s.parties
    | frame :: rest => s.during (Parties.takeResponse { s.parties with responses := rest } Ts frame)
  | .answer run seq response =>
    -- as on the other link, and the response fits the frame of `send_response_and_cache`
    if run ∈ s.parties.runs ∧ response.traits.getTxId response.bytes = run.txId ∧
        response.traits.frameSize ≤ MAX_FRAME_SIZE then s.during (s.parties.respond run seq response)
    else s.without s.parties
  | .finish run => s.without { s.parties with runs := s.parties.runs.erase run }
  | .loseRequest place => s.without { s.parties with requests := s.parties.requests.eraseIdx place }
  | .loseAck place => s.without { s.parties with acks := s.parties.acks.eraseIdx place }
  | .loseResponse place => s.without { s.parties with responses := s.parties.responses.eraseIdx place }

end Restarts

/-- A device with one host session after the other. -/
def restarts (Ts : PacketTypes) (handled : UInt16 → Bool) : Machine Restarts (RestartOp Ts) EraEvent where
  step := Restarts.step handled

/-! ### The logs -/

/-- The event of the host session `n`, if it is one. -/
def hostEvent (n : Nat) : EraEvent → Option Session.Event
  | (m, .link (.host e)) => if m = n then some e else none
  | _ => none

/-- The log of the host session `n`. -/
def eraLog (n : Nat) (log : List EraEvent) : List Session.Event := log.filterMap (hostEvent n)

@[simp] theorem eraLog_append (n : Nat) (a b : List EraEvent) : eraLog n (a ++ b) = eraLog n a ++ eraLog n b :=
  List.filterMap_append

theorem mem_eraLog {n : Nat} {log : List EraEvent} {e : Session.Event} :
    e ∈ eraLog n log ↔ (n, .link (.host e)) ∈ log := by
  rw [eraLog, List.mem_filterMap]
  constructor
  · rintro ⟨⟨m, x⟩, member, same⟩
    cases x with
    | taken _ _ _ => cases same
    | link x =>
      cases x with
      | ran _ | answered _ _ => cases same
      | host e' =>
        rw [hostEvent] at same
        split at same
        · rename_i here
          cases same
          exact here ▸ member
        · cases same
  · intro member
    exact ⟨_, member, if_pos rfl⟩

theorem eraLog_during (s : Restarts) (r : Parties × List LinkEvent) : eraLog s.era (s.during r).2 = hostLog r.2 := by
  rw [eraLog, Restarts.during, hostLog, List.filterMap_map]
  congr 1
  funext e
  cases e with
  | host e => exact if_pos rfl
  | ran _ | answered _ _ => rfl

/-! ### What the device does with a request -/

/-- A request is answered from the cache, or its handler runs, or neither. -/
theorem Parties.takeRequest_cases (s : Parties) (handled : UInt16 → Bool) (e : RetransmitEntry) :
    let next := s.takeRequest handled e
    (next.1.host = s.host ∧ next.1.requests = s.requests ∧
      next.1.device.completedCache = s.device.completedCache) ∧
    ((∃ c, composeDedupKey e.requestCmd e.txId ∈ s.device.seenRequests.ids ∧
        s.device.completedCache.find? (composeDedupKey e.requestCmd e.txId) = some c ∧
        next.1.responses = s.responses ++ [c.responseBytes] ∧ next.1.runs = s.runs ∧ next.2 = []) ∨
      (next.1.responses = s.responses ∧ next.1.runs = s.runs ++ [⟨e.requestCmd, e.txId, e.requestBytes⟩] ∧
        next.2 = [.ran ⟨e.requestCmd, e.txId, e.requestBytes⟩]) ∨
      (next.1.responses = s.responses ∧ next.1.runs = s.runs ∧ next.2 = [])) := by
  have cache : (s.device.onRequest e.requestCmd e.txId).1.completedCache = s.device.completedCache := by
    rw [ReliableSession.onRequest_eq]
  unfold Parties.takeRequest
  dsimp only
  split
  · exact ⟨⟨rfl, rfl, rfl⟩, .inr (.inr ⟨rfl, rfl, rfl⟩)⟩
  split
  · split
    · rename_i c found
      split
      · have seen : composeDedupKey e.requestCmd e.txId ∈ s.device.seenRequests.ids := by
          by_contra new
          have fresh := IdRingBuffer.testAndInsert_new new
          generalize (s.device.seenRequests.testAndInsert (composeDedupKey e.requestCmd e.txId)).1 = ring at fresh
          simp only [ReliableSession.onRequest, fresh] at found
          cases found
        exact ⟨⟨rfl, rfl, cache⟩, .inl ⟨c, seen, ReliableSession.onRequest_cached found, rfl, rfl, rfl⟩⟩
      · exact ⟨⟨rfl, rfl, cache⟩, .inr (.inr ⟨rfl, rfl, rfl⟩)⟩
    · exact ⟨⟨rfl, rfl, cache⟩, .inr (.inr ⟨rfl, rfl, rfl⟩)⟩
  split
  · exact ⟨⟨rfl, rfl, cache⟩, .inr (.inl ⟨rfl, rfl, rfl⟩)⟩
  · exact ⟨⟨rfl, rfl, cache⟩, .inr (.inr ⟨rfl, rfl, rfl⟩)⟩

/-! ### Invariants of the link -/

/-- Nothing is pending, on the line or to be answered that was not, and the device is the same. -/
structure Fewer (next s : Parties) : Prop where
  pending : next.host.pendingByTx = s.host.pendingByTx
  device : next.device = s.device
  requests : ∀ e ∈ next.requests, e ∈ s.requests
  runs : ∀ run ∈ next.runs, run ∈ s.runs
  responses : ∀ frame ∈ next.responses, frame ∈ s.responses

theorem Fewer.refl (s : Parties) : Fewer s s := ⟨rfl, rfl, fun _ h => h, fun _ h => h, fun _ h => h⟩

/-- What the parts of the operations keep, in runs whose log satisfies `G`. -/
structure KeepsEras (Ts : PacketTypes) (handled : UInt16 → Bool) (G : List EraEvent → Prop)
    (I : Restarts → List EraEvent → Prop) : Prop where
  restart : ∀ s h config, I s h → I ⟨s.era + 1, { s.parties with host := .init config }⟩ h
  fewer : ∀ s h next, Fewer next s.parties → I s h → I ⟨s.era, next⟩ h
  hostStep : ∀ s h o, I s h → G (h ++ (s.during (s.parties.hostStep o)).2) →
    I (s.during (s.parties.hostStep o)).1 (h ++ (s.during (s.parties.hostStep o)).2)
  takeRequest : ∀ s h e rest, s.parties.requests = e :: rest → I s h →
    let r := s.during (Parties.takeRequest handled { s.parties with requests := rest } e)
    let taken := (s.era, takes s.parties.device e)
    G (h ++ taken :: r.2) → I r.1 (h ++ taken :: r.2)
  respond : ∀ s h run seq (response : Packet Ts), run ∈ s.parties.runs →
    response.traits.getTxId response.bytes = run.txId → response.traits.frameSize ≤ MAX_FRAME_SIZE → I s h →
    I (s.during (s.parties.respond run seq response)).1 (h ++ (s.during (s.parties.respond run seq response)).2)

/-- What the parts keep, the operations keep. -/
theorem KeepsEras.step {Ts : PacketTypes} {handled : UInt16 → Bool} {G : List EraEvent → Prop}
    {I : Restarts → List EraEvent → Prop} (keeps : KeepsEras Ts handled G I) {s : Restarts} {h : List EraEvent}
    (o : RestartOp Ts) (i : I s h) (good : G (h ++ ((restarts Ts handled).step s o).2)) :
    I ((restarts Ts handled).step s o).1 (h ++ ((restarts Ts handled).step s o).2) := by
  have quiet : ∀ next, Fewer next s.parties → I (s.without next).1 (h ++ (s.without next).2) := by
    intro next fewer
    show I _ (h ++ [])
    rw [List.append_nil]
    exact keeps.fewer s h next fewer i
  have host : ∀ next o, Fewer next s.parties → G (h ++ (s.during (next.hostStep o)).2) →
      I (s.during (next.hostStep o)).1 (h ++ (s.during (next.hostStep o)).2) :=
    fun next o fewer good => keeps.hostStep ⟨s.era, next⟩ h o (keeps.fewer s h next fewer i) good
  change G (h ++ (s.step handled o).2) at good
  show I (s.step handled o).1 (h ++ (s.step handled o).2)
  cases o with
  | restart config =>
    show I _ (h ++ [])
    rw [List.append_nil]
    exact keeps.restart s h config i
  | setNextTxId t => exact quiet _ ⟨rfl, rfl, fun _ h => h, fun _ h => h, fun _ h => h⟩
  | send now request => exact host _ _ ⟨rfl, rfl, fun _ h => h, fun _ h => h, fun _ h => h⟩ good
  | registerPending now r | nextOutbound now | poll now clock reentry => exact host _ _ (.refl _) good
  | deliverRequest =>
    simp only [Restarts.step] at good ⊢
    split at good
    · exact quiet _ (.refl _)
    · rename_i e rest line
      exact keeps.takeRequest s h e rest line i good
  | deliverAck now =>
    simp only [Restarts.step] at good ⊢
    split at good
    · exact quiet _ (.refl _)
    · exact host _ _ ⟨rfl, rfl, fun _ h => h, fun _ h => h, fun _ h => h⟩ good
  | deliverResponse =>
    simp only [Restarts.step] at good ⊢
    split at good
    · exact quiet _ (.refl _)
    · rename_i frame responses line
      have popped : Fewer { s.parties with responses := responses } s.parties :=
        ⟨rfl, rfl, fun _ h => h, fun _ h => h, fun f member => by rw [line]; exact List.mem_cons_of_mem _ member⟩
      unfold Parties.takeResponse at good ⊢
      split at good
      · exact quiet _ popped
      · rename_i f read
        dsimp only at good ⊢
        by_cases unnumbered : extractTxIdFromRaw Ts f.cmd f.payload = 0
        · rw [if_pos unnumbered]
          exact quiet _ popped
        · rw [if_neg unnumbered] at good ⊢
          exact host _ _ popped good
  | answer run seq response =>
    simp only [Restarts.step] at good ⊢
    split
    · rename_i own
      exact keeps.respond s h run seq response own.1 own.2.1 own.2.2 i
    · exact quiet _ (.refl _)
  | finish run => exact quiet _ ⟨rfl, rfl, fun _ h => h, fun _ h => List.mem_of_mem_erase h, fun _ h => h⟩
  | loseRequest place => exact quiet _ ⟨rfl, rfl, fun _ h => List.mem_of_mem_eraseIdx h, fun _ h => h, fun _ h => h⟩
  | loseAck place => exact quiet _ ⟨rfl, rfl, fun _ h => h, fun _ h => h, fun _ h => h⟩
  | loseResponse place => exact quiet _ ⟨rfl, rfl, fun _ h => h, fun _ h => h, fun _ h => List.mem_of_mem_eraseIdx h⟩

/-! ### Where pending entries and cached responses come from -/

/-- What there is room for of a response frame is read as the response, if it is read. -/
theorem readFrame_kept {Ts : PacketTypes} {response : Packet Ts} {seq : UInt8} {len : Nat} {f : Frame}
    (small : response.traits.frameSize ≤ MAX_FRAME_SIZE)
    (read : readFrame Ts ((frameBytes seq response.traits.cmd response.bytes).take len) = some f) :
    f = response.content ∧ extractTxIdFromRaw Ts f.cmd f.payload = response.traits.getTxId response.bytes := by
  have word : response.traits.frameSize < 2 ^ 16 := by
    simp only [MAX_FRAME_SIZE] at small
    omega
  have whole : ¬ len < (frameBytes seq response.traits.cmd response.bytes).length := by
    intro cut
    rw [readFrame_take seq response word cut] at read
    cases read
  rw [List.take_of_length_le (by omega), readFrame_frameBytes seq response word] at read
  obtain rfl := Option.some.inj read
  exact ⟨rfl, extractTxIdFromRaw_mem response.mem response.length_bytes⟩

/-- What is cached for a key carries its number. -/
def Labelled (Ts : PacketTypes) (cache : DenseMap DedupKey CompletedResponse) : Prop :=
  ∀ k c, cache.find? k = some c → ∃ cmd txId, k = composeDedupKey cmd txId ∧
    ∀ f, readFrame Ts c.responseBytes = some f → extractTxIdFromRaw Ts f.cmd f.payload = txId

theorem Labelled.keeps (Ts : PacketTypes) (handled : UInt16 → Bool) :
    KeepsEras Ts handled (fun _ => True) (fun s _ => Labelled Ts s.parties.device.completedCache) where
  restart s h config labelled := labelled
  fewer s h next fewer labelled := by
    rw [fewer.device]
    exact labelled
  hostStep s h o labelled _ := labelled
  takeRequest := by
    intro s h e rest line labelled r taken _
    show Labelled Ts (Parties.takeRequest handled { s.parties with requests := rest } e).1.device.completedCache
    rw [(Parties.takeRequest_cases { s.parties with requests := rest } handled e).1.2.2]
    exact labelled
  respond s h run seq response ran own small labelled := by
    intro k c found
    rcases ReliableSession.cacheResponse_cached found with ⟨rfl, rfl⟩ | ⟨-, before⟩
    · exact ⟨run.cmd, run.txId, rfl, fun f read => (readFrame_kept small read).2.trans own⟩
    · exact labelled k c before

/-- What is pending was registered by the present session. -/
structure Sound (Ts : PacketTypes) (s : Restarts) (log : List EraEvent) : Prop where
  eras : ∀ n e, (n, e) ∈ log → n ≤ s.era
  recorded : ReliableSession.Recorded s.parties.host (eraLog s.era log)
  labelled : Labelled Ts s.parties.device.completedCache

namespace Sound

variable {Ts : PacketTypes} {s : Restarts} {log : List EraEvent}

theorem eras_append (sound : Sound Ts s log) {ev : List EraEvent} (here : ∀ x ∈ ev, x.1 = s.era) (n : Nat)
    (e : RestartEvent) (member : (n, e) ∈ log ++ ev) : n ≤ s.era := by
  rcases List.mem_append.mp member with old | new
  · exact sound.eras n e old
  · exact Nat.le_of_eq (here _ new)

theorem during_here (s : Restarts) (r : Parties × List LinkEvent) : ∀ x ∈ (s.during r).2, x.1 = s.era := by
  intro x member
  obtain ⟨e, -, rfl⟩ := List.mem_map.mp member
  rfl

theorem keeps (Ts : PacketTypes) (handled : UInt16 → Bool) :
    KeepsEras Ts handled (fun _ => True) (fun s log => Sound Ts s log) where
  restart s h config sound := by
    refine ⟨fun n e member => Nat.le_succ_of_le (sound.eras n e member), ?_, sound.labelled⟩
    intro t p found
    cases found
  fewer s h next fewer sound := by
    refine ⟨sound.eras, ?_, (Labelled.keeps Ts handled).fewer s h next fewer sound.labelled⟩
    intro t p found
    exact sound.recorded t p (fewer.pending ▸ found)
  hostStep s h o sound _ := by
    refine ⟨sound.eras_append (during_here s _), ?_, sound.labelled⟩
    show ReliableSession.Recorded _ (eraLog s.era (h ++ _))
    rw [eraLog_append, eraLog_during]
    show ReliableSession.Recorded _ (eraLog s.era h ++ hostLog (List.map LinkEvent.host _))
    rw [hostLog_host]
    exact sound.recorded.step o
  takeRequest := by
    intro s h e rest line sound r taken _
    obtain ⟨⟨host, -, -⟩, events⟩ := Parties.takeRequest_cases { s.parties with requests := rest } handled e
    refine ⟨sound.eras_append ?_, ?_, (Labelled.keeps Ts handled).takeRequest s h e rest line sound.labelled trivial⟩
    · intro x member
      rcases List.mem_cons.mp member with rfl | member
      · rfl
      · exact during_here s _ x member
    · have silent : eraLog s.era (taken :: r.2) = [] := by
        show eraLog s.era r.2 = []
        rw [eraLog_during]
        rcases events with ⟨c, -, -, -, -, log⟩ | ⟨-, -, log⟩ | ⟨-, -, log⟩ <;> rw [log] <;> rfl
      show ReliableSession.Recorded r.1.parties.host (eraLog s.era (h ++ _))
      rw [eraLog_append, silent, List.append_nil]
      show ReliableSession.Recorded (Parties.takeRequest handled _ e).1.host _
      rw [host]
      exact sound.recorded
  respond s h run seq response ran own small sound := by
    refine ⟨sound.eras_append (during_here s _), ?_,
      (Labelled.keeps Ts handled).respond s h run seq response ran own small sound.labelled⟩
    show ReliableSession.Recorded _ (eraLog s.era (h ++ _))
    rw [eraLog_append, eraLog_during]
    show ReliableSession.Recorded _ (eraLog s.era h ++ [])
    rw [List.append_nil]
    exact sound.recorded

theorem run (Ts : PacketTypes) (handled : UInt16 → Bool) (hostConfig deviceConfig : Config)
    (ops : List (RestartOp Ts)) :
    Sound Ts ((restarts Ts handled).exec (.init hostConfig deviceConfig) ops)
      ((restarts Ts handled).trace (.init hostConfig deviceConfig) ops) := by
  apply (restarts Ts handled).run_invariant_always (I := fun s log => Sound Ts s log)
  · constructor
    · intro n e member
      cases member
    · intro t p found
      cases found
    · intro k c found
      cases found
  · exact fun s log o sound => (Sound.keeps Ts handled).step o sound trivial

end Sound

/-! ### What the device has seen -/

/-- The key of a request that the device takes as new. -/
def acceptsKey : EraEvent → Option DedupKey
  | (_, .taken e false _) => if e.txId = 0 then none else some (composeDedupKey e.requestCmd e.txId)
  | _ => none

/-- The keys the device has accepted, in the time of any session. -/
def keysAccepted (log : List EraEvent) : List DedupKey := log.filterMap acceptsKey

@[simp] theorem keysAccepted_append (a b : List EraEvent) : keysAccepted (a ++ b) = keysAccepted a ++ keysAccepted b :=
  List.filterMap_append

theorem acceptsKey_takes (n : Nat) (device : ReliableSession) (e : RetransmitEntry) :
    acceptsKey (n, takes device e) = if composeDedupKey e.requestCmd e.txId ∈ device.seenRequests.ids then none
      else if e.txId = 0 then none else some (composeDedupKey e.requestCmd e.txId) := by
  unfold takes
  dsimp only
  by_cases seen : composeDedupKey e.requestCmd e.txId ∈ device.seenRequests.ids
  · rw [if_pos seen, decide_eq_true seen]
    rfl
  · rw [if_neg seen, decide_eq_false seen]
    rfl

theorem keysAccepted_during (s : Restarts) (r : Parties × List LinkEvent) : keysAccepted (s.during r).2 = [] := by
  rw [keysAccepted, List.filterMap_eq_nil_iff]
  intro x member
  obtain ⟨e, -, rfl⟩ := List.mem_map.mp member
  rfl

theorem Parties.takeRequest_seen (s : Parties) (handled : UInt16 → Bool) (e : RetransmitEntry) :
    (s.takeRequest handled e).1.device.seenRequests = if e.txId = 0 then s.device.seenRequests
      else (s.device.seenRequests.testAndInsert (composeDedupKey e.requestCmd e.txId)).1 := by
  have ring := congrArg ReliableSession.seenRequests (s.device.onRequest_eq e.requestCmd e.txId)
  unfold Parties.takeRequest
  dsimp only
  split
  · rfl
  split
  · split
    · split <;> exact ring
    · exact ring
  · split <;> exact ring

theorem remembers_keeps (Ts : PacketTypes) (handled : UInt16 → Bool) :
    KeepsEras Ts handled (fun _ => True) (fun s log => s.parties.device.seenRequests.Remembers (keysAccepted log)) where
  restart s h config remembers := remembers
  fewer s h next fewer remembers := by
    rw [fewer.device]
    exact remembers
  hostStep s h o remembers _ := by
    rw [keysAccepted_append, keysAccepted_during, List.append_nil]
    exact remembers
  takeRequest := by
    intro s h e rest line remembers r taken _
    have key : keysAccepted (taken :: r.2) = (acceptsKey taken).toList := by
      rw [keysAccepted, List.filterMap_cons, ← keysAccepted, keysAccepted_during]
      cases acceptsKey taken <;> rfl
    rw [keysAccepted_append, key, acceptsKey_takes]
    show (Parties.takeRequest handled { s.parties with requests := rest } e).1.device.seenRequests.Remembers _
    rw [Parties.takeRequest_seen]
    by_cases seen : composeDedupKey e.requestCmd e.txId ∈ s.parties.device.seenRequests.ids
    · rw [if_pos seen, IdRingBuffer.testAndInsert_seen seen, ite_self]
      show IdRingBuffer.Remembers _ (keysAccepted h ++ [])
      rw [List.append_nil]
      exact remembers
    · rw [if_neg seen]
      split
      · show IdRingBuffer.Remembers _ (keysAccepted h ++ [])
        rw [List.append_nil]
        exact remembers
      · exact (remembers.insert seen).2
  respond s h run seq response _ _ _ remembers := by
    rw [keysAccepted_append, keysAccepted_during, List.append_nil]
    exact remembers

/-- **What the device remembers.** After any run it has seen the key of a request if and only if that is
one of the last 64 that it has accepted, in the time of any session. -/
theorem seen_iff (Ts : PacketTypes) (handled : UInt16 → Bool) (hostConfig deviceConfig : Config)
    (ops : List (RestartOp Ts)) (cmd : UInt16) {txId : TransactionId} (nonzero : txId ≠ 0) :
    composeDedupKey cmd txId ∈
        ((restarts Ts handled).exec (.init hostConfig deviceConfig) ops).parties.device.seenRequests.ids ↔
      composeDedupKey cmd txId ∈ recent 64
        (keysAccepted ((restarts Ts handled).trace (.init hostConfig deviceConfig) ops)) := by
  have remembers : ((restarts Ts handled).exec
      (.init hostConfig deviceConfig) ops).parties.device.seenRequests.Remembers
      (keysAccepted ((restarts Ts handled).trace (.init hostConfig deviceConfig) ops)) := by
    apply (restarts Ts handled).run_invariant_always
      (I := fun s log => s.parties.device.seenRequests.Remembers (keysAccepted log))
    · exact .init 6
    · exact fun s log o remembers => (remembers_keeps Ts handled).step o remembers trivial
  exact remembers.mem_iff (composeDedupKey_ne_default cmd nonzero)

end FloridUsb.EndToEnd
