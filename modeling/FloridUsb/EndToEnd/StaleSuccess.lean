import FloridUsb.EndToEnd.Restarts
import FloridUsb.Session.Retry

/-!
# Whose response a host session gets

A response callback is right if nothing was on the way under the number of the request when that
was registered, and if no copy of the request reached the device, before the handler's answer to it,
while its key was among the last 64 accepted ones (`seen_iff`) and a response cached for it
(`right_unless_remembered`). Otherwise the session may get the response to a request of an earlier
one (`answered_from_earlier_session`).
-/

namespace FloridUsb.EndToEnd
set_option autoImplicit false

open Lib Rpl Session Stack

/-! ### A request with its number to itself -/

/-- Nothing is on the way under a number: no request, no run that may still be answered, and no response
of a type. -/
structure Clear (Ts : PacketTypes) (t : TransactionId) (cmd : UInt16) (s : Parties) : Prop where
  requests : ∀ e ∈ s.requests, e.txId ≠ t
  runs : ∀ run ∈ s.runs, run.txId ≠ t
  responses : ∀ frame ∈ s.responses, ∀ f, readFrame Ts frame = some f → f.cmd = cmd →
    extractTxIdFromRaw Ts f.cmd f.payload ≠ t

/-- The handler's answer to a request has been given, in the time of session `n`. -/
def Answered (n : Nat) (r : Registration) (log : List EraEvent) : Prop := ∃ f, (n, .link (.answered (.of r) f)) ∈ log

/-- Before the handler has answered a request, the device takes no copy of it whose key it has seen and
has a response cached for. -/
def Forgotten (n : Nat) (r : Registration) (log : List EraEvent) : Prop :=
  ∀ a m e b, log = a ++ (m, .taken e true true) :: b → e.txId = r.txId → Answered n r a

/-- If the frame is a response of the type under the number of the request, it was given for a run on
the request in the time of session `n`. -/
def AnswersOwn (Ts : PacketTypes) (n : Nat) (r : Registration) (cmd : UInt16) (log : List EraEvent)
    (frame : List UInt8) : Prop :=
  ∀ f, readFrame Ts frame = some f → f.cmd = cmd → extractTxIdFromRaw Ts f.cmd f.payload = r.txId →
    (n, .link (.ran (.of r))) ∈ log ∧ (n, .link (.answered (.of r) f)) ∈ log

/-- All that is under the number of a request is of this request, in a log that begins after it was
registered in session `n`. -/
structure OwnOnly (Ts : PacketTypes) (n : Nat) (r : Registration) (cmd : UInt16) (s : Parties)
    (log : List EraEvent) : Prop where
  requests : ∀ e ∈ s.requests, e.txId = r.txId → e = r.entry
  pending : ∀ p, s.host.pendingByTx.find? r.txId = some p → p.request = r.stored
  runs : ∀ run ∈ s.runs, run.txId = r.txId → run = .of r ∧ (n, .link (.ran run)) ∈ log
  responses : ∀ frame ∈ s.responses, AnswersOwn Ts n r cmd log frame
  /-- Once the device has answered the request. -/
  cached : Answered n r log → ∀ c,
    s.device.completedCache.find? (composeDedupKey r.requestCmd r.txId) = some c →
      AnswersOwn Ts n r cmd log c.responseBytes

/-- The request is not registered over, nor answered from what is cached from before. -/
structure Undivided (n : Nat) (r : Registration) (log : List EraEvent) : Prop where
  last : ∀ r', (n, .link (.host (.registered r'))) ∈ log → r'.txId ≠ r.txId
  forgotten : Forgotten n r log

theorem Undivided.left {n : Nat} {r : Registration} {a b : List EraEvent} (undivided : Undivided n r (a ++ b)) :
    Undivided n r a where
  last r' member := undivided.last r' (List.mem_append_left _ member)
  forgotten := by
    intro earlier m e later split
    apply undivided.forgotten earlier m e (later ++ b)
    rw [split, List.append_assoc, List.cons_append]

section OwnOnly

variable {Ts : PacketTypes} {n : Nat} {r : Registration} {cmd : UInt16} {log ev : List EraEvent}

theorem AnswersOwn.mono {frame : List UInt8} (answers : AnswersOwn Ts n r cmd log frame) (ev : List EraEvent) :
    AnswersOwn Ts n r cmd (log ++ ev) frame := by
  intro f read type number
  obtain ⟨ran, answered⟩ := answers f read type number
  exact ⟨List.mem_append_left _ ran, List.mem_append_left _ answered⟩

namespace OwnOnly

variable {s : Parties}

/-- Some events without an answer. -/
theorem mono (own : OwnOnly Ts n r cmd s log) (unanswered : ¬ Answered n r ev) :
    OwnOnly Ts n r cmd s (log ++ ev) where
  requests := own.requests
  pending := own.pending
  runs run member number := ⟨(own.runs run member number).1, List.mem_append_left _ (own.runs run member number).2⟩
  responses frame member := (own.responses frame member).mono ev
  cached := by
    rintro ⟨f, answered⟩ c found
    have before := (List.mem_append.mp answered).resolve_right fun here => unanswered ⟨f, here⟩
    exact (own.cached ⟨f, before⟩ c found).mono ev

theorem fewer (own : OwnOnly Ts n r cmd s log) {next : Parties} (fewer : Fewer next s) :
    OwnOnly Ts n r cmd next log where
  requests e member := own.requests e (fewer.requests e member)
  pending p found := own.pending p (fewer.pending ▸ found)
  runs run member := own.runs run (fewer.runs run member)
  responses frame member := own.responses frame (fewer.responses frame member)
  cached taken c found := own.cached taken c (fewer.device ▸ found)

/-- What the host sends under the number is the request. -/
theorem hostStep (own : OwnOnly Ts n r cmd s log) (keyed : ∀ t p, s.host.pendingByTx.find? t = some p → p.txId = t)
    (o : Op) (unanswered : ¬ Answered n r ev)
    (last : ∀ r', .registered r' ∈ (session.step s.host o).2 → r'.txId ≠ r.txId) :
    OwnOnly Ts n r cmd (s.hostStep o).1 (log ++ ev) := by
  have rest := own.mono unanswered
  refine ⟨?_, ?_, rest.runs, rest.responses, rest.cached⟩
  · intro e member number
    rcases List.mem_append.mp member with old | new
    · exact own.requests e old number
    · obtain ⟨x, logged, sent⟩ := List.mem_filterMap.mp new
      have out : .handedOut e ∈ (session.step s.host o).2 ∨ .retransmitted e ∈ (session.step s.host o).2 := by
        cases x with
        | handedOut e' =>
          cases sent
          exact .inl logged
        | retransmitted e' =>
          cases sent
          exact .inr logged
        | registered _ | response _ _ _ | error _ _ | requested _ _ _ => cases sent
      obtain ⟨t, p, found, rfl⟩ := ReliableSession.step_sends out
      obtain rfl : t = r.txId := (keyed t p found).symm.trans number
      exact PendingEntry.entry_eq (own.pending p found)
  · intro p found
    rcases ReliableSession.step_pending s.host o r.txId p found with ⟨q, before, same⟩ | ⟨r', registered, id, -⟩
    · exact same.trans (own.pending q before)
    · exact absurd id (last r' registered)

/-- The answer to a run under the number is one to the request. -/
theorem answer (own : OwnOnly Ts n r cmd s log) {run : Run} (ran : run ∈ s.runs) {seq : UInt8} {response : Packet Ts}
    (number : response.traits.getTxId response.bytes = run.txId) (small : response.traits.frameSize ≤ MAX_FRAME_SIZE)
    (len : Nat) : AnswersOwn Ts n r cmd (log ++ [(n, .link (.answered run response.content))])
      ((frameBytes seq response.traits.cmd response.bytes).take len) := by
  intro f read _ extracted
  obtain ⟨rfl, carried⟩ := readFrame_kept small read
  obtain ⟨rfl, logged⟩ := own.runs run ran ((carried.trans number).symm.trans extracted)
  exact ⟨List.mem_append_left _ logged, List.mem_append_right _ List.mem_cons_self⟩

theorem respond (own : OwnOnly Ts n r cmd s log) {run : Run} (ran : run ∈ s.runs) {seq : UInt8} {response : Packet Ts}
    (number : response.traits.getTxId response.bytes = run.txId) (small : response.traits.frameSize ≤ MAX_FRAME_SIZE) :
    OwnOnly Ts n r cmd (s.respond run seq response).1 (log ++ [(n, .link (.answered run response.content))]) := by
  refine ⟨own.requests, own.pending, ?_, ?_, ?_⟩
  · intro run' member same
    obtain ⟨of, logged⟩ := own.runs run' member same
    exact ⟨of, List.mem_append_left _ logged⟩
  · intro frame member
    rcases List.mem_append.mp member with old | new
    · exact (own.responses frame old).mono _
    · rw [List.mem_singleton.mp new]
      let frame := frameBytes seq response.traits.cmd response.bytes
      have whole : AnswersOwn Ts n r cmd (log ++ [(n, .link (.answered run response.content))])
          (frame.take frame.length) :=
        own.answer ran number small _
      rwa [List.take_length] at whole
  · rintro ⟨f, answered⟩ c found
    rcases ReliableSession.cacheResponse_cached found with ⟨-, rfl⟩ | ⟨other, before⟩
    · exact own.answer ran number small MAX_PACKET_SIZE
    · rcases List.mem_append.mp answered with earlier | now
      · exact (own.cached ⟨f, earlier⟩ c before).mono _
      · -- the answer to the request itself is what is cached for its key
        cases List.mem_singleton.mp now
        exact absurd rfl other

/-- The device takes a request from the line. -/
theorem takeRequest (own : OwnOnly Ts n r cmd s log) {handled : UInt16 → Bool} {e : RetransmitEntry}
    {rest : List RetransmitEntry} (line : s.requests = e :: rest)
    (labelled : Labelled Ts s.device.completedCache)
    (undivided : Undivided n r (log ++ [(n, takes s.device e)])) :
    OwnOnly Ts n r cmd (Parties.takeRequest handled { s with requests := rest } e).1
      (log ++ (n, takes s.device e) ::
        (Parties.takeRequest handled { s with requests := rest } e).2.map fun x => (n, .link x)) := by
  obtain ⟨⟨host, requests, cache⟩, events⟩ := Parties.takeRequest_cases { s with requests := rest } handled e
  have entry : e.txId = r.txId → e = r.entry := own.requests e (line ▸ List.mem_cons_self)
  generalize Parties.takeRequest handled { s with requests := rest } e = next at host requests cache events ⊢
  have answers : ∀ frame, AnswersOwn Ts n r cmd log frame → AnswersOwn Ts n r cmd
      (log ++ (n, takes s.device e) :: next.2.map fun x => (n, .link x)) frame :=
    fun frame answers => answers.mono _
  refine ⟨?_, ?_, ?_, ?_, ?_⟩
  · intro x member number
    rw [requests] at member
    exact own.requests x (line ▸ List.mem_cons_of_mem _ member) number
  · intro p found
    rw [host] at found
    exact own.pending p found
  · intro run member number
    have old : run ∈ s.runs → run = .of r ∧ (n, .link (.ran run)) ∈
        log ++ (n, takes s.device e) :: next.2.map fun x => (n, .link x) :=
      fun before => ⟨(own.runs run before number).1, List.mem_append_left _ (own.runs run before number).2⟩
    rcases events with ⟨_, -, -, -, runs, -⟩ | ⟨-, runs, ran⟩ | ⟨-, runs, -⟩
    · exact old (runs ▸ member)
    · rw [runs] at member
      rcases List.mem_append.mp member with before | here
      · exact old before
      · obtain rfl := List.mem_singleton.mp here
        refine ⟨?_, ?_⟩
        · rw [entry number]
          rfl
        · rw [ran]
          simp
    · exact old (runs ▸ member)
  · intro frame member
    rcases events with ⟨c, seen, found, responses, -⟩ | ⟨responses, -⟩ | ⟨responses, -⟩
    · rw [responses] at member
      rcases List.mem_append.mp member with before | here
      · exact answers _ (own.responses frame before)
      · rw [List.mem_singleton.mp here]
        by_cases number : e.txId = r.txId
        · have duplicate : takes s.device e = .taken e true true := by simp [takes, seen, found]
          rw [duplicate] at undivided
          have answered := undivided.forgotten log n e [] rfl number
          rw [entry number] at found
          exact answers _ (own.cached answered c found)
        · intro f read _ extracted
          obtain ⟨cmd', txId, key, carries⟩ := labelled _ c found
          obtain ⟨-, rfl⟩ := composeDedupKey_inj key
          exact absurd ((carries f read).symm.trans extracted) number
    · exact answers _ (own.responses frame (responses ▸ member))
    · exact answers _ (own.responses frame (responses ▸ member))
  · rintro ⟨f, answered⟩ c found
    rw [cache] at found
    have before : (n, .link (.answered (.of r) f)) ∈ log := by
      refine (List.mem_append.mp answered).resolve_right fun here => ?_
      have later := (List.mem_cons.mp here).resolve_left (by simp [takes])
      obtain ⟨x, logged, same⟩ := List.mem_map.mp later
      cases same
      rcases events with ⟨_, -, -, -, -, log⟩ | ⟨-, -, log⟩ | ⟨-, -, log⟩ <;> rw [log] at logged <;> simp at logged
    exact answers _ (own.cached ⟨f, before⟩ c found)

end OwnOnly

theorem unanswered_host (s : Restarts) (r : Registration) (o : Op) :
    ¬ Answered n r (s.during (s.parties.hostStep o)).2 := by
  rintro ⟨f, answered⟩
  obtain ⟨x, logged, same⟩ := List.mem_map.mp answered
  cases same
  obtain ⟨e, -, other⟩ := List.mem_map.mp logged
  cases other

/-- As long as session `n` is at it, all that is under the number of its request is of this request. -/
structure Following (Ts : PacketTypes) (n : Nat) (r : Registration) (cmd : UInt16) (s : Restarts)
    (log : List EraEvent) : Prop where
  later : n ≤ s.era
  keyed : ∀ t p, s.parties.host.pendingByTx.find? t = some p → p.txId = t
  labelled : Labelled Ts s.parties.device.completedCache
  own : s.era = n → OwnOnly Ts n r cmd s.parties log

theorem Following.keeps (Ts : PacketTypes) (handled : UInt16 → Bool) (n : Nat) (r : Registration) (cmd : UInt16) :
    KeepsEras Ts handled (Undivided n r) (fun s log => Following Ts n r cmd s log) where
  restart s h config f := by
    refine ⟨Nat.le_succ_of_le f.later, ?_, f.labelled, ?_⟩
    · intro t p found
      cases found
    · intro same
      have later := f.later
      change s.era + 1 = n at same
      omega
  fewer s h next fewer f := by
    refine ⟨f.later, ?_, (Labelled.keeps Ts handled).fewer s h next fewer f.labelled,
      fun same => (f.own same).fewer fewer⟩
    intro t p found
    exact f.keyed t p (fewer.pending ▸ found)
  hostStep s h o f undivided := by
    refine ⟨f.later, ?_, f.labelled, ?_⟩
    · intro t p found
      rcases ReliableSession.step_pending s.parties.host o t p found with ⟨q, before, same⟩ | ⟨r', -, id, same⟩
      · exact (congrArg Registration.txId same).trans (f.keyed t q before)
      · exact (congrArg Registration.txId same).trans id
    · rintro rfl
      apply (f.own rfl).hostStep f.keyed o (unanswered_host s r o)
      intro r' registered
      apply undivided.last r'
      apply List.mem_append_right
      exact List.mem_map_of_mem (List.mem_map_of_mem registered)
  takeRequest := by
    intro s h e rest line f next taken undivided
    obtain ⟨⟨host, -, -⟩, -⟩ := Parties.takeRequest_cases { s.parties with requests := rest } handled e
    refine ⟨f.later, ?_, (Labelled.keeps Ts handled).takeRequest s h e rest line f.labelled trivial, ?_⟩
    · intro t p found
      change (Parties.takeRequest handled _ e).1.host.pendingByTx.find? t = some p at found
      rw [host] at found
      exact f.keyed t p found
    · rintro rfl
      apply (f.own rfl).takeRequest line f.labelled
      apply @Undivided.left _ _ _ next.2
      rw [List.append_assoc]
      exact undivided
  respond s h run seq response ran number small f := by
    refine ⟨f.later, f.keyed, (Labelled.keeps Ts handled).respond s h run seq response ran number small f.labelled, ?_⟩
    rintro rfl
    exact (f.own rfl).respond ran number small

end OwnOnly

/-! ### Whose response it is -/

/-- The operations that may register a request. -/
def RestartOp.registers {Ts : PacketTypes} : RestartOp Ts → Bool
  | .send _ _ | .registerPending _ _ | .poll _ _ _ => true
  | _ => false

/-- An event of the host is one of the present session: of an operation that may register, a request
handed out, or of a frame on the line that it reads as a response. -/
theorem step_host_cases {Ts : PacketTypes} {s : Restarts} {handled : UInt16 → Bool} {o : RestartOp Ts} {n : Nat}
    {e : Session.Event} (logged : (n, .link (.host e)) ∈ ((restarts Ts handled).step s o).2) :
    n = s.era ∧ ((o.registers = true ∧ ∃ host op, e ∈ (session.step host op).2 ∧
        ∀ cmd txId bytes, op ≠ .onResponse cmd txId bytes) ∨
      (∃ entry, e = .handedOut entry) ∨
      ∃ frame f, frame ∈ s.parties.responses ∧ readFrame Ts frame = some f ∧
        e ∈ (s.parties.host.onResponse f.cmd (extractTxIdFromRaw Ts f.cmd f.payload) f.payload).2) := by
  have host : ∀ (parties : Parties) (op : Op), (n, .link (.host e)) ∈ (s.during (parties.hostStep op)).2 →
      n = s.era ∧ e ∈ (session.step parties.host op).2 := by
    intro parties op member
    obtain ⟨x, here, same⟩ := List.mem_map.mp member
    cases same
    obtain ⟨x', here, same⟩ := List.mem_map.mp here
    cases same
    exact ⟨rfl, here⟩
  change _ ∈ (s.step handled o).2 at logged
  cases o with
  | restart config | setNextTxId t | finish run | loseRequest place | loseAck place | loseResponse place => cases logged
  | send now request | registerPending now r | poll now clock reentry =>
    obtain ⟨era, here⟩ := host _ _ logged
    exact ⟨era, .inl ⟨rfl, _, _, here, by simp⟩⟩
  | nextOutbound now =>
    obtain ⟨era, here⟩ := host _ _ logged
    obtain ⟨entry, -, same⟩ := Option.map_eq_some_iff.mp (Option.mem_toList.mp here)
    exact ⟨era, .inr (.inl ⟨entry, same.symm⟩)⟩
  | deliverRequest =>
    simp only [Restarts.step] at logged
    split at logged
    · cases logged
    · have later := (List.mem_cons.mp logged).resolve_left (by simp [takes])
      obtain ⟨x, ran, same⟩ := List.mem_map.mp later
      cases same
      cases mem_takeRequest ran
  | deliverAck now =>
    simp only [Restarts.step] at logged
    split at logged
    · cases logged
    · cases (host _ _ logged).2
  | deliverResponse =>
    simp only [Restarts.step] at logged
    split at logged
    · cases logged
    · rename_i frame rest line
      unfold Parties.takeResponse at logged
      split at logged
      · cases logged
      · rename_i f read
        dsimp only at logged
        split at logged
        · cases logged
        · obtain ⟨era, here⟩ := host _ _ logged
          exact ⟨era, .inr (.inr ⟨frame, f, line ▸ List.mem_cons_self, read, here⟩)⟩
  | answer run seq response =>
    simp only [Restarts.step] at logged
    split at logged
    · obtain ⟨x, answered, same⟩ := List.mem_map.mp logged
      cases same
      cases List.mem_singleton.mp answered
    · cases logged

/-- A response callback is one of the present session, for a frame on the line. -/
theorem step_calls_back {Ts : PacketTypes} {s : Restarts} {handled : UInt16 → Bool} {o : RestartOp Ts} {n : Nat}
    {t : TransactionId} {cmd : UInt16} {bytes : List UInt8}
    (called : (n, .link (.host (.response t cmd bytes))) ∈ ((restarts Ts handled).step s o).2) :
    n = s.era ∧ ∃ frame f p, frame ∈ s.parties.responses ∧ readFrame Ts frame = some f ∧ f.cmd = cmd ∧
      f.payload = bytes ∧ s.parties.host.pendingByTx.find? (extractTxIdFromRaw Ts f.cmd f.payload) = some p ∧
        p.responseCmd = cmd ∧ p.txId = t := by
  obtain ⟨era, ⟨-, host, op, here, other⟩ | ⟨entry, same⟩ | ⟨frame, f, arrived, read, here⟩⟩ := step_host_cases called
  · obtain ⟨txId, p, same, -⟩ := ReliableSession.step_responds here
    exact absurd same (other cmd txId bytes)
  · cases same
  · obtain ⟨p, found, fits, same⟩ := ReliableSession.mem_onResponse here
    cases same
    exact ⟨era, frame, f, p, arrived, read, rfl, rfl, found, fits, rfl⟩

/-- A registration is one of the present session, by an operation that may register. -/
theorem step_registers {Ts : PacketTypes} {s : Restarts} {handled : UInt16 → Bool} {o : RestartOp Ts} {n : Nat}
    {r : Registration} (registered : (n, .link (.host (.registered r))) ∈ ((restarts Ts handled).step s o).2) :
    n = s.era ∧ o.registers = true := by
  obtain ⟨era, ⟨registers, -⟩ | ⟨entry, same⟩ | ⟨frame, f, -, -, here⟩⟩ := step_host_cases registered
  · exact ⟨era, registers⟩
  · cases same
  · obtain ⟨p, -, -, same⟩ := ReliableSession.mem_onResponse here
    cases same

/-- A run, at the operation that made the last registration of a transaction in a session. -/
theorem split_at_last {Ts : PacketTypes} {handled : UInt16 → Bool} {s : Restarts} {n : Nat} {t : TransactionId}
    {r : Registration} (ops : List (RestartOp Ts))
    (last : lastRegistered t (eraLog n ((restarts Ts handled).trace s ops)) = some r) :
    ∃ before made after, ops = before ++ made :: after ∧
      lastRegistered t (eraLog n ((restarts Ts handled).step ((restarts Ts handled).exec s before) made).2) = some r ∧
      lastRegistered t (eraLog n ((restarts Ts handled).trace
        ((restarts Ts handled).exec s (before ++ [made])) after)) =
        none := by
  induction ops using List.reverseRecOn with
  | nil => cases last
  | append_singleton ops o ih =>
    rw [Machine.trace_snoc, eraLog_append, lastRegistered_append] at last
    cases here : lastRegistered t (eraLog n ((restarts Ts handled).step ((restarts Ts handled).exec s ops) o).2) with
    | some r' =>
      rw [here] at last
      exact ⟨ops, o, [], rfl, here.trans last, rfl⟩
    | none =>
      rw [here, Option.none_or] at last
      obtain ⟨before, made, after, rfl, registered, later⟩ := ih last
      refine ⟨before, made, after ++ [o], by simp, registered, ?_⟩
      rw [Machine.trace_snoc, eraLog_append, lastRegistered_append, later, ← Machine.exec_append]
      simp only [List.append_assoc, List.singleton_append]
      rw [here]
      rfl

theorem lastRegistered_eq_none {t : TransactionId} {log : List Session.Event} {r : Registration}
    (none : lastRegistered t log = none) (member : .registered r ∈ log) : r.txId ≠ t := by
  rintro rfl
  rw [lastRegistered, List.getLast?_eq_none_iff, List.filterMap_eq_nil_iff] at none
  have registers := none _ member
  rw [Event.registers, if_pos rfl] at registers
  cases registers

/-- **No stale success, but for what is remembered or still under way.** When a host session invokes the
response callback of a request, there is the operation of this session in which it registered that
request, and nothing was registered under its number after it. If right after that operation nothing
was on the way under the number, and the device has since taken no copy of the request, before the
answer to it, whose key it had seen and had a response cached for, then the device has run the handler
on exactly the bytes that this session sends for the request, in the time of this session, and the
response is one given for that run. -/
theorem right_unless_remembered (Ts : PacketTypes) (handled : UInt16 → Bool) (hostConfig deviceConfig : Config)
    (ops : List (RestartOp Ts)) (o : RestartOp Ts) {n : Nat} {t : TransactionId} {cmd : UInt16} {bytes : List UInt8}
    (called : (n, .link (.host (.response t cmd bytes))) ∈ ((restarts Ts handled).step
      ((restarts Ts handled).exec (.init hostConfig deviceConfig) ops) o).2) :
    ∃ before made after r p, ops = before ++ made :: after ∧
      let start := (restarts Ts handled).exec (.init hostConfig deviceConfig) (before ++ [made])
      let log := (restarts Ts handled).trace start after
      (n, .link (.host (.registered r))) ∈ ((restarts Ts handled).step
        ((restarts Ts handled).exec (.init hostConfig deviceConfig) before) made).2 ∧
      (∀ r', (n, .link (.host (.registered r'))) ∈ log → r'.txId ≠ t) ∧
      ((restarts Ts handled).exec (.init hostConfig deviceConfig) ops).parties.host.pendingByTx.find? t = some p ∧
      p.request = r.stored ∧ r.txId = t ∧ r.responseCmd = cmd ∧
      (Clear Ts t cmd start.parties → Forgotten n r log →
        (n, .link (.ran (.of r))) ∈ log ∧ (n, .link (.answered (.of r) ⟨cmd, bytes⟩)) ∈ log) := by
  have sound := Sound.run Ts handled hostConfig deviceConfig ops
  obtain ⟨era, frame, f, p, arrived, read, rfl, rfl, found, type, id⟩ := step_calls_back called
  obtain ⟨r, last, stored⟩ := sound.recorded _ p found
  have number : r.txId = extractTxIdFromRaw Ts f.cmd f.payload := (mem_of_lastRegistered last).2
  have own : p.txId = r.txId := congrArg Registration.txId stored
  obtain rfl : r.txId = t := own.symm.trans id
  rw [← number] at found last
  rw [← era] at last
  obtain ⟨before, made, after, split, registered, later⟩ := split_at_last ops last
  have once : ∀ r', (n, .link (.host (.registered r'))) ∈ (restarts Ts handled).trace
      ((restarts Ts handled).exec (.init hostConfig deviceConfig) (before ++ [made])) after → r'.txId ≠ r.txId :=
    fun r' member => lastRegistered_eq_none later (mem_eraLog.mpr member)
  refine ⟨before, made, after, r, p, split, mem_eraLog.mp (mem_of_lastRegistered registered).1, once, found, stored,
    rfl, (congrArg Registration.responseCmd stored).symm.trans type, fun clear forgotten => ?_⟩
  have atStart := Sound.run Ts handled hostConfig deviceConfig (before ++ [made])
  have lastThere : lastRegistered r.txId (eraLog n ((restarts Ts handled).trace (.init hostConfig deviceConfig)
      (before ++ [made]))) = some r := by
    rw [Machine.trace_snoc, eraLog_append, lastRegistered_append, registered]
    rfl
  have start : Following Ts n r f.cmd ((restarts Ts handled).exec (.init hostConfig deviceConfig) (before ++ [made]))
      [] := by
    refine ⟨atStart.eras n _ (mem_eraLog.mp (mem_of_lastRegistered lastThere).1), ?_, atStart.labelled, ?_⟩
    · intro t q there
      obtain ⟨r', last', same⟩ := atStart.recorded t q there
      exact (congrArg Registration.txId same).trans (mem_of_lastRegistered last').2
    · intro here
      refine ⟨?_, ?_, ?_, ?_, ?_⟩
      · exact fun e member number => absurd number (clear.requests e member)
      · intro q there
        obtain ⟨r', last', same⟩ := atStart.recorded _ q there
        rw [here, lastThere] at last'
        rw [same, Option.some.inj last']
      · exact fun run member number => absurd number (clear.runs run member)
      · exact fun frame member f read type number => absurd number (clear.responses frame member f read type)
      · rintro ⟨f, answered⟩
        cases answered
  have undivided : Undivided n r ((restarts Ts handled).trace
      ((restarts Ts handled).exec (.init hostConfig deviceConfig) (before ++ [made])) after) := ⟨once, forgotten⟩
  have follows := (restarts Ts handled).run_invariant (G := Undivided n r)
    (I := fun s log => Following Ts n r f.cmd s log) (fun _ _ undivided => undivided.left) start
    (fun s log o f good => (Following.keeps Ts handled n r _).step o f good) after undivided
  have whole : ops = (before ++ [made]) ++ after := by simp [split]
  rw [whole, Machine.exec_append] at era arrived
  exact (follows.own era.symm).responses frame arrived f read rfl number.symm

/-! ### Two sessions -/

def RestartOp.isRestart {Ts : PacketTypes} : RestartOp Ts → Bool
  | .restart _ => true
  | _ => false

theorem era_step {Ts : PacketTypes} (handled : UInt16 → Bool) (s : Restarts) (o : RestartOp Ts) :
    ((restarts Ts handled).step s o).1.era = s.era + if o.isRestart then 1 else 0 := by
  show (s.step handled o).1.era = _
  cases o with
  | deliverRequest | deliverAck now | deliverResponse =>
    simp only [Restarts.step]
    split <;> rfl
  | answer run seq response =>
    simp only [Restarts.step]
    split <;> rfl
  | _ => rfl

/-- The number of a session is that of the restarts. -/
theorem era_exec {Ts : PacketTypes} (handled : UInt16 → Bool) (s : Restarts) (ops : List (RestartOp Ts)) :
    ((restarts Ts handled).exec s ops).era = s.era + ops.countP RestartOp.isRestart := by
  induction ops generalizing s with
  | nil => rfl
  | cons o ops ih =>
    rw [Machine.exec, ih, era_step, List.countP_cons]
    omega

/-- The zeroing of a motor, under a `tx_id`. -/
def zeroing (motor : UInt8) (txId : TransactionId) : Registration :=
  ⟨txId, 0x6107, 0x6108, le32Bytes txId ++ [motor], true, true, 200000, 3⟩

theorem setZeroResponse_mem : Arm.setZeroResponsePacket ∈ Arm.armPackets.types := by decide

/-- What follows on its `send`: its way to the device and the ACK's way back, with its response on the
line then. -/
def zeroed (motor : UInt8) (txId : TransactionId) : List (RestartOp Arm.armPackets) :=
  let run : Run := ⟨0x6107, txId, le32Bytes txId ++ [motor]⟩
  [.nextOutbound 0, .deliverRequest,
    .answer run 0 ⟨Arm.setZeroResponsePacket, le32Bytes txId ++ [0], setZeroResponse_mem, rfl⟩, .finish run,
      .deliverAck 0]

/-- A session with 65 requests, whose responses are lost. -/
def manyZeroed : List (RestartOp Arm.armPackets) :=
  (List.range 65).flatMap fun i => .send 0 (zeroing 5) :: zeroed 5 (UInt32.ofNat (i + 1)) ++ [.loseResponse 0]

/-- A new session, after the `earlier` ones, makes its request 1. -/
def afresh (earlier : List (RestartOp Arm.armPackets)) : List (RestartOp Arm.armPackets) :=
  earlier ++ [.restart {}] ++ .send 0 (zeroing 6) :: zeroed 6 1

/-- The arm's packets, all of them handled. -/
abbrev armRestarts := restarts Arm.armPackets fun _ => true

/-- If a session makes one request at its start and no other one, the operation that registers in it is
that request's. -/
theorem only_one_made {Ts : PacketTypes} {earlier rest before after : List (RestartOp Ts)} {config : Config}
    {first made : RestartOp Ts} (split : earlier ++ [.restart config] ++ first :: rest = before ++ made :: after)
    (others : ∀ o ∈ rest, o.registers = false) (registers : made.registers = true)
    (session : before.countP RestartOp.isRestart =
      (earlier ++ [RestartOp.restart config]).countP RestartOp.isRestart) :
    before = earlier ++ [.restart config] ∧ made = first ∧ after = rest := by
  rcases List.append_eq_append_iff.mp split with ⟨between, rfl, tail⟩ | ⟨between, head, tail⟩
  · cases between with
    | nil =>
      obtain ⟨rfl, rfl⟩ := List.cons.inj tail
      exact ⟨List.append_nil _, rfl, rfl⟩
    | cons x between =>
      obtain ⟨-, rfl⟩ := List.cons.inj tail
      have quiet := others made (by simp)
      rw [registers] at quiet
      cases quiet
  · cases between with
    | nil =>
      obtain ⟨rfl, rfl⟩ := List.cons.inj tail
      exact ⟨(head.trans (List.append_nil _)).symm, rfl, rfl⟩
    | cons x between =>
      -- the restart is then among `between`, or the operation itself
      obtain ⟨rfl, -⟩ := List.cons.inj tail
      have last : (RestartOp.restart config : RestartOp Ts) ∈ made :: between := by
        have ends := congrArg List.getLast? head
        rw [List.getLast?_concat, List.getLast?_append, Option.or_of_isSome (by simp)] at ends
        exact List.mem_of_getLast? ends.symm
      have counted : 0 < (made :: between).countP RestartOp.isRestart := List.countP_pos_iff.mpr ⟨_, last, rfl⟩
      rw [head, List.countP_append] at session
      omega

/-- The session before has its request 1 answered, and 64 more of them. The device has forgotten that one
then: request 1 of the new session is run and answered. -/
theorem right_after_many :
    let log := armRestarts.trace (.init { windowSize := 65 } {}) (afresh manyZeroed)
    (0, .link (.answered (.of (zeroing 5 1)) ⟨0x6108, [1, 0, 0, 0, 0]⟩)) ∈ log ∧
      (1, .link (.ran (.of (zeroing 6 1)))) ∈ log ∧
      (1, .link (.answered (.of (zeroing 6 1)) ⟨0x6108, [1, 0, 0, 0, 0]⟩)) ∈ log := by
  intro log
  have run : (0, .link (.answered (.of (zeroing 5 1)) ⟨0x6108, [1, 0, 0, 0, 0]⟩)) ∈ log ∧
      (1, .link (.host (.response 1 0x6108 [1, 0, 0, 0, 0]))) ∈
        (armRestarts.step (armRestarts.exec (.init { windowSize := 65 } {}) (afresh manyZeroed)) .deliverResponse).2 ∧
      (armRestarts.step (armRestarts.exec (.init { windowSize := 65 } {}) (manyZeroed ++ [.restart {}]))
        (.send 0 (zeroing 6))).2 = [(1, .link (.host (.registered (zeroing 6 1))))] ∧
      let start := armRestarts.exec (.init { windowSize := 65 } {})
        (manyZeroed ++ [.restart {}] ++ [.send 0 (zeroing 6)])
      (start.parties.requests = [] ∧ start.parties.runs = [] ∧ start.parties.responses = []) ∧
        armRestarts.trace start (zeroed 6 1) =
          [(1, .link (.host (.handedOut (zeroing 6 1).entry))), (1, .taken (zeroing 6 1).entry false false),
            (1, .link (.ran (.of (zeroing 6 1)))),
            (1, .link (.answered (.of (zeroing 6 1)) ⟨0x6108, [1, 0, 0, 0, 0]⟩))] := by
    decide +kernel
  obtain ⟨earlier, called, first, ⟨requests, runs, responses⟩, events⟩ := run
  obtain ⟨before, made, after, r, p, split, registered, -, -, -, -, -, right⟩ :=
    right_unless_remembered Arm.armPackets (fun _ => true) { windowSize := 65 } {} (afresh manyZeroed) .deliverResponse
      called
  obtain ⟨era, registers⟩ := step_registers registered
  rw [era_exec] at era
  obtain ⟨rfl, rfl, rfl⟩ := only_one_made split (by decide) registers
    ((Nat.zero_add _).symm.trans (era.symm.trans (by decide +kernel)))
  rw [first] at registered
  cases List.mem_singleton.mp registered
  have clear : Clear Arm.armPackets 1 0x6108 (armRestarts.exec (.init { windowSize := 65 } {})
      (manyZeroed ++ [.restart {}] ++ [.send 0 (zeroing 6)])).parties := by
    constructor
    · rw [requests]
      exact fun e member => absurd member List.not_mem_nil
    · rw [runs]
      exact fun run member => absurd member List.not_mem_nil
    · rw [responses]
      exact fun frame member => absurd member List.not_mem_nil
  have forgotten : Forgotten 1 (zeroing 6 1) (armRestarts.trace (armRestarts.exec (.init { windowSize := 65 } {})
      (manyZeroed ++ [.restart {}] ++ [.send 0 (zeroing 6)])) (zeroed 6 1)) := by
    rw [events]
    intro a m e b split
    have member : (m, RestartEvent.taken e true true) ∈ a ++ (m, .taken e true true) :: b := by simp
    rw [← split] at member
    simp at member
  obtain ⟨ran, answered⟩ := right clear forgotten
  refine ⟨earlier, ?_⟩
  have whole : log = armRestarts.trace (.init { windowSize := 65 } {})
      (manyZeroed ++ [.restart {}] ++ [.send 0 (zeroing 6)] ++ zeroed 6 1) := by
    rw [List.append_assoc]
    rfl
  rw [whole, Machine.trace_append]
  exact ⟨List.mem_append_right _ ran, List.mem_append_right _ answered⟩

/-- Both sessions number their first request 1. The device zeroes motor 5 for the first one, takes
the second one, for motor 6, for a duplicate, and answers it with the first one's response. -/
theorem answered_from_earlier_session :
    let ops : List (RestartOp Arm.armPackets) := .send 0 (zeroing 5) :: zeroed 5 1 ++
      [.deliverResponse, .restart {}, .send 1 (zeroing 6), .nextOutbound 1, .deliverRequest, .deliverAck 1]
    let log := armRestarts.trace (.init {} {}) ops
    (1, .link (.host (.response 1 0x6108 [1, 0, 0, 0, 0]))) ∈
      (armRestarts.step (armRestarts.exec (.init {} {}) ops) .deliverResponse).2 ∧
    ¬ ∃ r m, (1, .link (.host (.registered r))) ∈ log ∧ r.txId = 1 ∧ (m, .link (.ran (.of r))) ∈ log := by
  intro ops log
  have whole : log = [(0, .link (.host (.registered (zeroing 5 1)))),
      (0, .link (.host (.handedOut ⟨1, 0x6107, [1, 0, 0, 0, 5]⟩))),
        (0, .taken ⟨1, 0x6107, [1, 0, 0, 0, 5]⟩ false false),
      (0, .link (.ran ⟨0x6107, 1, [1, 0, 0, 0, 5]⟩)),
      (0, .link (.answered ⟨0x6107, 1, [1, 0, 0, 0, 5]⟩ ⟨0x6108, [1, 0, 0, 0, 0]⟩)),
      (0, .link (.host (.response 1 0x6108 [1, 0, 0, 0, 0]))), (1, .link (.host (.registered (zeroing 6 1)))),
      (1, .link (.host (.handedOut ⟨1, 0x6107, [1, 0, 0, 0, 6]⟩))),
        (1, .taken ⟨1, 0x6107, [1, 0, 0, 0, 6]⟩ true true)] := by
    decide +kernel
  constructor
  · decide +kernel
  · rintro ⟨r, m, registered, -, ran⟩
    rw [whole] at registered ran
    have second : r = zeroing 6 1 := by simpa using registered
    rw [second] at ran
    have first : m = 0 ∧ Run.of (zeroing 6 1) = ⟨0x6107, 1, [1, 0, 0, 0, 5]⟩ := by simpa using ran
    exact absurd first.2 (by decide)

/-- A response that is still on the line when the new session makes its request misleads as well: the
device has not seen the request. -/
example :
    let before : List (RestartOp Arm.armPackets) := .send 0 (zeroing 5) :: zeroed 5 1 ++ [.restart {}]
    (armRestarts.trace (armRestarts.exec (.init {} {}) before) [.send 1 (zeroing 6), .deliverResponse]) =
      [(1, .link (.host (.registered (zeroing 6 1)))), (1, .link (.host (.response 1 0x6108 [1, 0, 0, 0, 0])))] := by
  decide +kernel

end FloridUsb.EndToEnd
