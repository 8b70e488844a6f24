import FloridUsb.Stack.Parts

/-!
# What the transmit queue promises

Whatever a stack does, its transmit half runs as the machine of `TxQueue` (`txSteps`). So the
queue is bounded, what `send_frame` accepts comes in the order in which it was enqueued, and an
entry leaves the queue unsent only when another one is enqueued on a full queue (`Moves`). The
telemetry flag of an entry says the same whether it was read from a command or from a frame.
-/

namespace FloridUsb.Stack
set_option autoImplicit false

open Lib Rpl Session

/-! ### The transmit half alone -/

def TxEvent.enqueued? : TxEvent → Option TxEntry
  | .enqueued e => some e
  | .accepted _ => none

def TxEvent.accepted? : TxEvent → Option TxEntry
  | .enqueued _ => none
  | .accepted e => some e

/-- The entries put into the queue, in order. -/
def enqueuedEntries (log : List TxEvent) : List TxEntry := log.filterMap TxEvent.enqueued?

/-- The entries that `send_frame` has accepted, in order. -/
def acceptedEntries (log : List TxEvent) : List TxEntry := log.filterMap TxEvent.accepted?

@[simp] theorem enqueuedEntries_append (a b : List TxEvent) :
    enqueuedEntries (a ++ b) = enqueuedEntries a ++ enqueuedEntries b :=
  List.filterMap_append

@[simp] theorem acceptedEntries_append (a b : List TxEvent) :
    acceptedEntries (a ++ b) = acceptedEntries a ++ acceptedEntries b :=
  List.filterMap_append

section Transmitter

variable {Ts : PacketTypes}

def TxOp.enqueues : TxOp Ts → Bool
  | .drain _ => false
  | .pending _ _ | .packet _ _ | .replay _ => true

/-- What a step that logs `log` does to the queue: entries come behind it, its front leaves because
`send_frame` has accepted it, or an attempt to enqueue on a full queue has cost it one entry. -/
inductive Moves (o : TxOp Ts) (queue after : List TxEntry) (log : List TxEvent) : Prop
  | grows (new : List TxEntry) (moved : after = queue ++ new)
  | sends (e : TxEntry) (drains : o = .drain (some true)) (accepted : .accepted e ∈ log) (moved : queue = e :: after)
  | displaces (kept new : List TxEntry) (enqueues : o.enqueues = true) (full : TX_QUEUE_CAP ≤ queue.length)
      (order : kept.Sublist queue) (one : queue.length = kept.length + 1) (short : new.length ≤ 1)
      (moved : after = kept ++ new)

namespace TxPath

variable {s : TxPath}

theorem enqueuePendingFrame_room (Ts : PacketTypes) {cmd : UInt16} {raw : List UInt8}
    (room : s.queue.length < TX_QUEUE_CAP) :
    (s.enqueuePendingFrame Ts cmd raw).1.queue = s.queue ++ (s.enqueuePendingFrame Ts cmd raw).2.toList := by
  unfold enqueuePendingFrame
  rw [if_neg (by omega)]
  dsimp only
  split
  · exact (List.append_nil _).symm
  · rfl

theorem enqueuePrebuiltFrame_room {frame : List UInt8} {priority : Bool} (room : s.queue.length < TX_QUEUE_CAP) :
    (s.enqueuePrebuiltFrame frame priority).1.queue = s.queue ++ (s.enqueuePrebuiltFrame frame priority).2.toList := by
  unfold enqueuePrebuiltFrame
  split
  · exact (List.append_nil _).symm
  · dsimp only
    rw [if_neg (by omega)]
    rfl

theorem enqueuePacket_room {packet : Packet Ts} {priority : Bool} (room : s.queue.length < TX_QUEUE_CAP) :
    (s.enqueuePacket packet priority).1.queue = s.queue ++ (s.enqueuePacket packet priority).2.toList := by
  rcases s.enqueuePacket_cases packet priority with ⟨-, done⟩ | ⟨-, done⟩ <;> rw [done]
  · exact (List.append_nil _).symm
  · exact @enqueuePrebuiltFrame_room { s with serializer := ⟨s.serializer.sequence + 1⟩ } _ _ room

/-- A queue with room keeps what it has. -/
theorem step_room {o : TxOp Ts} (enqueues : o.enqueues = true) (room : s.queue.length < TX_QUEUE_CAP) :
    (s.step o).1.queue = s.queue ++ enqueuedEntries (s.step o).2 := by
  have logged : ∀ entry : Option TxEntry, enqueuedEntries ((entry.map .enqueued).toList) = entry.toList := by
    rintro (_ | entry) <;> rfl
  cases o with
  | pending cmd raw => exact (enqueuePendingFrame_room Ts room).trans (congrArg _ (logged _).symm)
  | packet packet priority => exact (enqueuePacket_room room).trans (congrArg _ (logged _).symm)
  | replay frame => exact (enqueuePrebuiltFrame_room room).trans (congrArg _ (logged _).symm)
  | drain sendFrame => cases enqueues

theorem drainTx_cases (s : TxPath) (sendFrame : Option Bool) :
    (s.drainTx sendFrame).1.queue = s.queue ∨ sendFrame = some true ∧
      ∃ e, (s.drainTx sendFrame).2 = some e ∧ s.queue = e :: (s.drainTx sendFrame).1.queue := by
  unfold drainTx
  split
  · rename_i entry queue front
    exact .inr ⟨rfl, entry, rfl, front⟩
  · exact .inl rfl

/-- **How the queue moves.** -/
theorem step_moves (s : TxPath) (o : TxOp Ts) : Moves o s.queue (s.step o).1.queue (s.step o).2 := by
  by_cases enqueues : o.enqueues = true
  swap
  · cases o with
    | drain sendFrame =>
      rcases s.drainTx_cases sendFrame with same | ⟨rfl, e, out, front⟩
      · exact .grows [] (same.trans (List.append_nil _).symm)
      · refine .sends e rfl ?_ front
        show .accepted e ∈ (((s.drainTx (some true)).2).map TxEvent.accepted).toList
        rw [out]
        exact List.mem_singleton_self _
    | pending cmd raw | packet packet priority | replay frame => exact absurd rfl enqueues
  by_cases full : TX_QUEUE_CAP ≤ s.queue.length
  swap
  · exact .grows _ (step_room enqueues (by omega))
  have pos : 0 < s.queue.length := Nat.lt_of_lt_of_le (by decide) full
  rcases s.step_queue o with same | dropped | ⟨e, drain, -⟩ | ⟨kept, e, queue, place⟩
  · exact .grows [] (by rw [same, List.append_nil])
  · obtain ⟨-, order, length⟩ := dropOneTelemetry_eq_some dropped
    exact .displaces (s.step o).1.queue [] enqueues full order length.symm (Nat.zero_le 1) (List.append_nil _).symm
  · rw [drain] at enqueues
    cases enqueues
  · rcases place with ⟨-, room⟩ | dropped | ⟨rfl, -⟩
    · omega
    · obtain ⟨-, order, length⟩ := dropOneTelemetry_eq_some dropped
      exact .displaces kept [e] enqueues full order length.symm (Nat.le_refl 1) queue
    · apply Moves.displaces s.queue.dropLast [e] enqueues full (List.dropLast_sublist _) _ (Nat.le_refl 1) queue
      rw [List.length_dropLast]
      omega

/-- The queue stays within its bound. -/
theorem step_bounded (bound : s.queue.length ≤ TX_QUEUE_CAP) (o : TxOp Ts) :
    (s.step o).1.queue.length ≤ TX_QUEUE_CAP := by
  cases s.step_moves o with
  | sends e drains accepted moved =>
    rw [moved, List.length_cons] at bound
    omega
  | displaces kept new enqueues full order one short moved =>
    rw [moved, List.length_append]
    omega
  | grows new moved =>
    rcases s.step_queue o with same | dropped | ⟨e, -, front⟩ | ⟨kept, e, queue, place⟩
    · rw [same]
      exact bound
    · have := (dropOneTelemetry_eq_some dropped).2.2
      omega
    · rw [front, List.length_cons] at bound
      omega
    · rw [queue, List.length_append, List.length_singleton]
      rcases place with ⟨rfl, room⟩ | dropped | ⟨rfl, crowded, -⟩
      · omega
      · have := (dropOneTelemetry_eq_some dropped).2.2
        omega
      · have := crowded.1
        simp only [TX_QUEUE_CAP] at this bound ⊢
        rw [List.length_dropLast]
        omega

/-- What was accepted and what waits come in the order in which they were enqueued. -/
theorem step_ordered {log : List TxEvent}
    (ordered : (acceptedEntries log ++ s.queue).Sublist (enqueuedEntries log)) (o : TxOp Ts) :
    (acceptedEntries (log ++ (s.step o).2) ++ (s.step o).1.queue).Sublist (enqueuedEntries (log ++ (s.step o).2)) := by
  have pushed : ∀ r : TxPath × Option TxEntry, Enqueues s.queue r →
      (acceptedEntries (log ++ (r.2.map .enqueued).toList) ++ r.1.queue).Sublist
        (enqueuedEntries (log ++ (r.2.map .enqueued).toList)) := by
    rintro ⟨tx, entry⟩ ⟨kept, old, queue⟩
    have accepted : acceptedEntries ((entry.map .enqueued).toList) = [] := by cases entry <;> rfl
    have enqueued : enqueuedEntries ((entry.map .enqueued).toList) = entry.toList := by cases entry <;> rfl
    rw [acceptedEntries_append, enqueuedEntries_append, accepted, enqueued, queue, List.append_nil, ← List.append_assoc]
    exact List.Sublist.append (List.Sublist.trans (old.append_left _) ordered) (List.Sublist.refl _)
  cases o with
  | pending cmd raw => exact pushed _ (s.enqueuePendingFrame_enqueues Ts cmd raw)
  | packet packet priority => exact pushed _ (s.enqueuePacket_enqueues packet priority)
  | replay frame => exact pushed _ (s.enqueuePrebuiltFrame_enqueues frame true)
  | drain sendFrame =>
    have accepted : acceptedEntries (((s.drainTx sendFrame).2.map .accepted).toList) =
        (s.drainTx sendFrame).2.toList := by
      cases (s.drainTx sendFrame).2 <;> rfl
    have enqueued : enqueuedEntries (((s.drainTx sendFrame).2.map .accepted).toList) = [] := by
      cases (s.drainTx sendFrame).2 <;> rfl
    show (acceptedEntries (log ++ ((s.drainTx sendFrame).2.map .accepted).toList) ++
        (s.drainTx sendFrame).1.queue).Sublist
      (enqueuedEntries (log ++ ((s.drainTx sendFrame).2.map .accepted).toList))
    rw [acceptedEntries_append, enqueuedEntries_append, accepted, enqueued, List.append_nil, List.append_assoc,
      s.drainTx_queue]
    exact ordered

end TxPath

/-- **Runs of the transmit half** from an empty queue. -/
theorem transmitter_ordered (ops : List (TxOp Ts)) :
    ((transmitter Ts).exec {} ops).queue.length ≤ TX_QUEUE_CAP ∧
      (acceptedEntries ((transmitter Ts).trace {} ops) ++ ((transmitter Ts).exec {} ops).queue).Sublist
        (enqueuedEntries ((transmitter Ts).trace {} ops)) := by
  apply (transmitter Ts).run_invariant_always
    (I := fun s log => s.queue.length ≤ TX_QUEUE_CAP ∧ (acceptedEntries log ++ s.queue).Sublist (enqueuedEntries log))
  · exact ⟨Nat.zero_le _, List.Sublist.refl _⟩
  · intro s log o ⟨bound, ordered⟩
    exact ⟨s.step_bounded bound o, s.step_ordered ordered o⟩

end Transmitter

/-! ### The transmit half of a stack -/

/-- What an event of a stack says about its transmit half. -/
def StackEvent.tx? : StackEvent → Option TxEvent
  | .enqueued _ entry | .replayed _ _ entry => some (.enqueued entry)
  | .accepted entry => some (.accepted entry)
  | .session _ | .offered _ | .handler _ _ _ _ => none

def txEvents (log : List StackEvent) : List TxEvent := log.filterMap StackEvent.tx?

@[simp] theorem txEvents_append (a b : List StackEvent) :
    txEvents (a ++ b) = txEvents a ++ txEvents b := List.filterMap_append

theorem txEvents_quiet {log : List StackEvent} (quiet : ∀ e ∈ log, e.tx? = none) : txEvents log = [] :=
  List.filterMap_eq_nil_iff.mpr quiet

theorem txEvents_session (events : List Session.Event) : txEvents (events.map .session) = [] := by
  apply txEvents_quiet
  intro e member
  obtain ⟨_, -, rfl⟩ := List.mem_map.mp member
  rfl

/-- The events of an entry that was put into the queue. -/
theorem txEvents_toList {event : TxEntry → StackEvent} {said : TxEntry → TxEvent}
    (same : ∀ e, (event e).tx? = some (said e))
    (entry : Option TxEntry) : txEvents (entry.map event).toList = (entry.map said).toList := by
  cases entry with
  | none => rfl
  | some e =>
    show [event e].filterMap StackEvent.tx? = [said e]
    rw [List.filterMap_cons, same e]
    rfl

section Stack

variable {Ts : PacketTypes}

/-- The stack has come from `start` by steps of its transmit half, which has logged the same. -/
def TxSteps (start : TxPath) (s : ProtocolStack Ts) (h : List StackEvent) : Prop :=
  ∃ ops : List (TxOp Ts), (transmitter Ts).exec start ops = s.tx ∧ (transmitter Ts).trace start ops = txEvents h

namespace TxSteps

variable {start : TxPath} {s s' : ProtocolStack Ts} {h ev : List StackEvent}

/-- A part of an operation that leaves the transmit half alone. -/
theorem idle (steps : TxSteps start s h) (same : s'.tx = s.tx) (quiet : txEvents ev = []) :
    TxSteps start s' (h ++ ev) := by
  obtain ⟨ops, state, log⟩ := steps
  refine ⟨ops, state.trans same.symm, ?_⟩
  rw [txEvents_append, quiet, List.append_nil]
  exact log

theorem snoc (steps : TxSteps start s h) (o : TxOp Ts) (state : s'.tx = (s.tx.step o).1)
    (log : txEvents ev = (s.tx.step o).2) :
    TxSteps start s' (h ++ ev) := by
  obtain ⟨ops, before, logged⟩ := steps
  refine ⟨ops ++ [o], ?_, ?_⟩
  · rw [(transmitter Ts).exec_snoc, before]
    exact state.symm
  · rw [(transmitter Ts).trace_snoc, logged, before, txEvents_append, log]
    rfl

theorem keeps (start : TxPath) : KeepsParts (fun _ : Act Ts => True) (fun _ => True) (fun _ _ => True)
    (fun s h _ _ => TxSteps start s h) where
  closed _ _ _ := trivial
  note s h due todo e isNote steps := by
    apply steps.idle rfl
    cases e with
    | offered content | handler handler cmd txId data => rfl
    | session e | enqueued content entry | replayed cmd txId entry | accepted entry => cases isNote
  handlers s h due todo handlers steps := steps
  setNextTxId s h due todo t steps := steps
  send s h due todo now args _ steps _ := steps.idle rfl rfl
  enqueuePacket s h due todo packet priority _ _ steps :=
    steps.snoc (.packet packet priority) rfl (txEvents_toList (fun _ => rfl) _)
  cache s h due todo cmd txId response entry seq _ _ _ _ _ steps := steps
  onAck s h now txId steps := steps
  onResponse s h cmd txId data steps := steps.idle rfl (txEvents_session _)
  onRequest s h cmd txId steps := steps.idle rfl rfl
  replay s h cmd txId cached _ steps :=
    steps.snoc (.replay cached.responseBytes) rfl (txEvents_toList (fun _ => rfl) _)
  handOut s h now steps := by
    apply steps.idle rfl
    apply txEvents_quiet
    intro e member
    obtain ⟨_, -, rfl⟩ := Option.map_eq_some_iff.mp (Option.mem_toList.mp member)
    rfl
  enqueue s h e todo _ steps := steps.snoc (.pending e.requestCmd e.requestBytes) rfl (txEvents_toList (fun _ => rfl) _)
  pollLoop s h now clock steps := steps
  error s h txId due todo steps := steps.idle rfl rfl
  skip s h txId due todo steps := steps
  retransmitted s h todo steps := by
    apply steps.idle rfl
    apply txEvents_quiet
    intro e member
    obtain ⟨_, -, rfl⟩ := List.mem_map.mp member
    rfl
  drainTx s h sendFrame steps := steps.snoc (.drain sendFrame) rfl (txEvents_toList (fun _ => rfl) _)

end TxSteps

/-- **The transmit half of a stack is a transmitter**: every operation is a run of it. -/
theorem txSteps (s : ProtocolStack Ts) (o : StackOp Ts) :
    TxSteps s.tx ((stack Ts).step s o).1 ((stack Ts).step s o).2 := by
  have start : TxSteps s.tx s [] := ⟨[], rfl, rfl⟩
  have steps := (TxSteps.keeps s.tx).whole.step o o.meets_true (o.offers_true s) start trivial
  rwa [List.nil_append] at steps

/-- The flag of an entry is what the command in its frame says. -/
def Flagged (e : TxEntry) : Prop := 7 ≤ e.frame.length ∧ e.telemetry = isTelemetryCmd (le16 e.frame 5)

/-- Every entry that was ever enqueued is flagged, and what is cached is long enough to be. -/
structure AllFlagged (s : ProtocolStack Ts) (h : List StackEvent) : Prop where
  entries : ∀ e ∈ enqueuedEntries (txEvents h), Flagged e
  cached : ∀ k c, s.session.completedCache.find? k = some c → 7 ≤ c.responseBytes.length

theorem Flagged.of_frame {frame : List UInt8} (long : 7 ≤ frame.length) : Flagged ⟨frame, isTelemetryFrame frame⟩ := by
  refine ⟨long, ?_⟩
  show isTelemetryFrame frame = isTelemetryCmd (le16 frame 5)
  rw [isTelemetryFrame, if_neg (by omega)]

namespace AllFlagged

variable {s s' : ProtocolStack Ts} {h ev : List StackEvent}

theorem idle (flagged : AllFlagged s h) (same : s'.session.completedCache = s.session.completedCache)
    (quiet : txEvents ev = []) : AllFlagged s' (h ++ ev) := by
  constructor
  · rw [txEvents_append, quiet, List.append_nil]
    exact flagged.entries
  · rw [same]
    exact flagged.cached

theorem push (flagged : AllFlagged s h) {r : TxPath × Option TxEntry} {event : TxEntry → StackEvent}
    (said : ∀ e, (event e).tx? = some (.enqueued e)) (new : ∀ e, r.2 = some e → Flagged e) :
    AllFlagged (s.transmit r event).1 (h ++ (s.transmit r event).2) := by
  refine ⟨?_, flagged.cached⟩
  show ∀ e ∈ enqueuedEntries (txEvents (h ++ (r.2.map event).toList)), Flagged e
  rw [txEvents_append, txEvents_toList said, enqueuedEntries_append]
  intro e member
  rcases List.mem_append.mp member with old | here
  · exact flagged.entries e old
  · apply new e
    cases pushed : r.2 with
    | none =>
      rw [pushed] at here
      cases here
    | some e' =>
      rw [pushed] at here
      exact congrArg some (List.mem_singleton.mp here).symm

theorem keeps : KeepsParts (fun _ : Act Ts => True) (fun _ => True) (fun _ _ => True)
    (fun s h _ _ => AllFlagged s h) where
  closed _ _ _ := trivial
  note s h due todo e isNote flagged := by
    apply flagged.idle rfl
    cases e with
    | offered content | handler handler cmd txId data => rfl
    | session e | enqueued content entry | replayed cmd txId entry | accepted entry => cases isNote
  handlers s h due todo handlers flagged := ⟨flagged.entries, flagged.cached⟩
  setNextTxId s h due todo t flagged := ⟨flagged.entries, flagged.cached⟩
  send s h due todo now args _ flagged _ := flagged.idle rfl rfl
  enqueuePacket s h due todo packet priority _ _ flagged := by
    apply flagged.push (fun _ => rfl)
    intro e pushed
    rcases s.tx.enqueuePacket_cases packet priority with ⟨-, done⟩ | ⟨-, done⟩ <;> rw [done] at pushed
    · cases pushed
    rcases TxPath.enqueuePrebuiltFrame_cases { s.tx with serializer := ⟨s.tx.serializer.sequence + 1⟩ }
      (frameBytes s.tx.serializer.sequence packet.traits.cmd packet.bytes) priority with ⟨-, done⟩ |
        ⟨queue, -, -, done⟩ <;>
      rw [done] at pushed <;> cases pushed
    apply Flagged.of_frame
    rw [length_frameBytes]
    omega
  cache s h due todo cmd txId response entry seq _ _ _ _ frame flagged := by
    refine ⟨flagged.entries, fun k c found => ?_⟩
    rcases ReliableSession.cacheResponse_cached found with ⟨-, rfl⟩ | ⟨-, before⟩
    · show 7 ≤ (entry.frame.take MAX_PACKET_SIZE).length
      rw [List.length_take, frame, length_frameBytes]
      simp only [MAX_PACKET_SIZE]
      omega
    · exact flagged.cached k c before
  onAck s h now txId flagged := by
    refine ⟨flagged.entries, ?_⟩
    have same := (ReliableSession.step_device (s := s.session) (o := .onAck now txId) rfl).1
    exact same ▸ flagged.cached
  onResponse s h cmd txId data flagged :=
    flagged.idle (ReliableSession.step_device (s := s.session) (o := .onResponse cmd txId data) rfl).1
      (txEvents_session _)
  onRequest s h cmd txId flagged := by
    apply flagged.idle _ rfl
    show (s.session.onRequest cmd txId).1.completedCache = _
    rw [s.session.onRequest_eq cmd txId]
  replay s h cmd txId cached found flagged := by
    apply flagged.push (fun _ => rfl)
    intro e pushed
    rcases s.tx.enqueuePrebuiltFrame_cases cached.responseBytes true with ⟨-, done⟩ | ⟨queue, -, -, done⟩ <;>
      rw [done] at pushed <;> cases pushed
    exact .of_frame (flagged.cached _ cached found)
  handOut s h now flagged := by
    apply flagged.idle (ReliableSession.step_device (s := s.session) (o := .nextOutbound now) rfl).1
    apply txEvents_quiet
    intro e member
    obtain ⟨_, -, rfl⟩ := Option.map_eq_some_iff.mp (Option.mem_toList.mp member)
    rfl
  enqueue s h e todo _ flagged := by
    apply flagged.push (fun _ => rfl)
    intro entry pushed
    rcases s.tx.enqueuePendingFrame_cases Ts e.requestCmd e.requestBytes with
      ⟨_, -, done⟩ | ⟨_, frame, _, -, serialized, done⟩ <;> rw [done] at pushed <;> cases pushed
    obtain ⟨packet, cmd, -, serialized⟩ := serializeRawToFrame_eq_some serialized
    obtain ⟨-, rfl, -⟩ := serializePacketToFrame_eq_some serialized
    constructor
    · rw [length_frameBytes]
      omega
    · rw [le16_frameBytes_cmd, cmd]
  pollLoop s h now clock flagged := ⟨flagged.entries, flagged.cached⟩
  error s h txId due todo flagged := flagged.idle rfl rfl
  skip s h txId due todo flagged := flagged
  retransmitted s h todo flagged := by
    apply flagged.idle rfl
    apply txEvents_quiet
    intro e member
    obtain ⟨_, -, rfl⟩ := List.mem_map.mp member
    rfl
  drainTx s h sendFrame flagged := by
    constructor
    · show ∀ e ∈ enqueuedEntries (txEvents (h ++ ((s.tx.drainTx sendFrame).2.map .accepted).toList)), Flagged e
      have said : txEvents ((s.tx.drainTx sendFrame).2.map .accepted).toList =
          ((s.tx.drainTx sendFrame).2.map .accepted).toList :=
        txEvents_toList (fun _ => rfl) _
      rw [txEvents_append, said, enqueuedEntries_append]
      have none : enqueuedEntries (((s.tx.drainTx sendFrame).2.map TxEvent.accepted).toList) = [] := by
        cases (s.tx.drainTx sendFrame).2 <;> rfl
      rw [none, List.append_nil]
      exact flagged.entries
    · exact flagged.cached

end AllFlagged

/-- A run of a stack is a run of its transmit half. -/
theorem txSteps_run (config : Config) (ops : List (StackOp Ts)) :
    TxSteps {} ((stack Ts).exec (.init Ts config) ops) ((stack Ts).trace (.init Ts config) ops) := by
  have start : TxSteps {} (ProtocolStack.init Ts config) [] := ⟨[], rfl, rfl⟩
  exact (TxSteps.keeps {}).whole.run_any start ops (fun o _ => o.meets_true) trivial

theorem allFlagged_run (config : Config) (ops : List (StackOp Ts)) :
    AllFlagged ((stack Ts).exec (.init Ts config) ops) ((stack Ts).trace (.init Ts config) ops) := by
  have start : AllFlagged (ProtocolStack.init Ts config) [] := by
    constructor
    · intro e member
      cases member
    · intro k c found
      cases found
  exact AllFlagged.keeps.whole.run_any start ops (fun o _ => o.meets_true) trivial

theorem isTelemetryCmd_iff (cmd : UInt16) :
    isTelemetryCmd cmd = true ↔ 0x6000 ≤ cmd ∧ cmd ≤ 0x60FF := decide_eq_true_iff

/-- **The contract of the transmit queue**, in every state that a stack reaches: the queue holds at
most 16 entries; every entry ever enqueued is flagged as telemetry exactly when the command in
its frame is; what `send_frame` accepted, and then what waits, comes in the order in which it was
enqueued, each entry once; a frame that is refused stays in front; and whatever operation comes
next, its steps move the queue within these bounds and lose an entry only by an attempt to
enqueue on a full queue. -/
theorem tx_queue_contract (config : Config) (ops : List (StackOp Ts)) :
    let s := (stack Ts).exec (.init Ts config) ops
    let log := txEvents ((stack Ts).trace (.init Ts config) ops)
    s.tx.queue.length ≤ TX_QUEUE_CAP ∧
    (∀ e ∈ enqueuedEntries log, 7 ≤ e.frame.length ∧
      (e.telemetry = true ↔ 0x6000 ≤ le16 e.frame 5 ∧ le16 e.frame 5 ≤ 0x60FF)) ∧
    (acceptedEntries log ++ s.tx.queue).Sublist (enqueuedEntries log) ∧
    ((stack Ts).step s (.drainTx (some false))).1.tx.queue = s.tx.queue ∧
    ∀ o, ∃ txOps : List (TxOp Ts), (transmitter Ts).exec s.tx txOps = ((stack Ts).step s o).1.tx ∧
      (transmitter Ts).trace s.tx txOps = txEvents ((stack Ts).step s o).2 ∧
      ∀ pre p post, txOps = pre ++ p :: post →
        let before := (transmitter Ts).exec s.tx pre
        before.queue.length ≤ TX_QUEUE_CAP ∧ Moves p before.queue (before.step p).1.queue (before.step p).2 := by
  intro s log
  obtain ⟨runOps, state, logged⟩ := txSteps_run config ops
  have ordered := transmitter_ordered runOps
  rw [state, logged] at ordered
  have flagged := (allFlagged_run config ops).entries
  refine ⟨ordered.1, ?_, ordered.2, ?_, ?_⟩
  · intro e member
    obtain ⟨long, flag⟩ := flagged e member
    rw [flag, isTelemetryCmd_iff]
    exact ⟨long, Iff.rfl⟩
  · show (s.tx.drainTx (some false)).1.queue = _
    rfl
  · intro o
    obtain ⟨txOps, after, said⟩ := txSteps s o
    refine ⟨txOps, after, said, ?_⟩
    intro pre p post _ before
    constructor
    · have bounded := (transmitter_ordered (runOps ++ pre)).1
      rw [(transmitter Ts).exec_append, state] at bounded
      exact bounded
    · exact before.step_moves p

end Stack

end FloridUsb.Stack
