import FloridUsb.Lib.Simulation
import FloridUsb.Session.Notify
import FloridUsb.Stack.SendOrder

/-!
# A stack runs its session

Whatever a stack does, its session only sees the operations of a session: every run of a stack
is a run of its session, which logs the session events of the stack in the same order
(`stack_simulates_session`). A cycle interleaves the loop of `poll` with what the error
callbacks do; their registrations are those of `poll`, and what they cache may as well be cached
after it.

The session of the stack differs from that of the run in the next transaction number alone:
`next_tx_id` and `set_next_tx_id` are no operations of the session machine, and no operation
reads the number.
-/

namespace FloridUsb.Session
set_option autoImplicit false

open Lib ReliableSession

/-! ### The next number -/

/-- The session with another next number. -/
def ReliableSession.renumber (s : ReliableSession) (n : TransactionId) : ReliableSession := { s with nextTxId := n }

section Renumber

variable {s : ReliableSession} {n : TransactionId}

@[simp] theorem renumber_renumber (m : TransactionId) : (s.renumber n).renumber m = s.renumber m := rfl

@[simp] theorem renumber_self : s.renumber s.nextTxId = s := rfl

@[simp] theorem renumber_pendingByTx : (s.renumber n).pendingByTx = s.pendingByTx := rfl

theorem registerAll_renumber (s : ReliableSession) (n : TransactionId) (regs : List (Time × Registration)) :
    registerAll (s.renumber n) regs = ((registerAll s regs).1.renumber n, (registerAll s regs).2) := by
  induction regs generalizing s with
  | nil => rfl
  | cons reg regs ih =>
    have rest := ih (s.registerPending reg.1 reg.2)
    simp only [registerAll]
    rw [show (s.renumber n).registerPending reg.1 reg.2 = (s.registerPending reg.1 reg.2).renumber n from rfl, rest]

theorem runCallbacks_renumber (reentry : TransactionId → List (Time × Registration)) (s : ReliableSession)
    (n : TransactionId) (callbacks : List (TransactionId × Bool)) :
    runCallbacks reentry (s.renumber n) callbacks =
      ((runCallbacks reentry s callbacks).1.renumber n, (runCallbacks reentry s callbacks).2) := by
  induction callbacks generalizing s with
  | nil => rfl
  | cons cb callbacks ih =>
    obtain ⟨t, present⟩ := cb
    cases present with
    | false => exact ih s
    | true => simp only [runCallbacks, registerAll_renumber, ih]

theorem pump_renumber (now : Time) (s : ReliableSession) (n : TransactionId) (queue : List TransactionId) :
    pump now (s.renumber n) queue = ((pump now s queue).1.renumber n, (pump now s queue).2) := by
  induction queue with
  | nil => rfl
  | cons t queue ih =>
    unfold pump
    show (if s.inflightCount < s.config.windowSize then _ else _) = _
    split
    · rw [renumber_pendingByTx]
      cases s.pendingByTx.find? t with
      | none => exact ih
      | some p => rfl
    · rfl

/-- No operation reads the next number. -/
theorem step_renumber (s : ReliableSession) (n : TransactionId) (o : Op) :
    session.step (s.renumber n) o = ((session.step s o).1.renumber n, (session.step s o).2) := by
  cases o with
  | registerPending now r => rfl
  | onAck now t =>
    show ((s.renumber n).onAck now t, []) = ((s.onAck now t).renumber n, [])
    unfold onAck
    rw [renumber_pendingByTx]
    cases s.pendingByTx.find? t with
    | none => rfl
    | some p => dsimp only; split <;> rfl
  | onResponse cmd t bytes =>
    show (s.renumber n).onResponse cmd t bytes = ((s.onResponse cmd t bytes).1.renumber n, (s.onResponse cmd t bytes).2)
    have ring : (s.renumber n).seenResponses = s.seenResponses := rfl
    cases tested : s.seenResponses.testAndInsert (composeDedupKey cmd t) with
    | mk seen repeated =>
      cases repeated with
      | true =>
        simp only [onResponse, ring, tested]
        rfl
      | false =>
        cases found : s.pendingByTx.find? t with
        | none =>
          simp only [onResponse, ring, tested, renumber_pendingByTx, found]
          rfl
        | some p =>
          simp only [onResponse, ring, tested, renumber_pendingByTx, found]
          split <;> rfl
  | onRequest cmd t =>
    show (((s.renumber n).onRequest cmd t).1, [Event.requested cmd t ((s.renumber n).onRequest cmd t).2]) = _
    show _ = ((s.onRequest cmd t).1.renumber n, [Event.requested cmd t (s.onRequest cmd t).2])
    have ring : (s.renumber n).seenRequests = s.seenRequests := rfl
    cases tested : s.seenRequests.testAndInsert (composeDedupKey cmd t) with
    | mk seen repeated =>
      cases repeated with
      | true | false =>
        simp only [onRequest, ring, tested]
        rfl
  | cacheResponse cmd t responseCmd bytes => rfl
  | poll now clock reentry =>
    have called := runCallbacks_renumber reentry (s.pollLoop now clock).1 n (s.pollLoop now clock).2.callbacks
    show ((runCallbacks reentry ((s.pollLoop now clock).1.renumber n) (s.pollLoop now clock).2.callbacks).1, _) = _
    rw [called]
    show (_, (runCallbacks reentry ((s.pollLoop now clock).1.renumber n) (s.pollLoop now clock).2.callbacks).2 ++ _) = _
    rw [called]
    rfl
  | nextOutbound now =>
    have pumped := pump_renumber now s n s.outboundQueue
    show ((pump now (s.renumber n) s.outboundQueue).1, ((pump now (s.renumber n) s.outboundQueue).2.map _).toList) = _
    rw [pumped]
    rfl
  | resetDeviceState => rfl

theorem exec_renumber (s : ReliableSession) (n : TransactionId) (ops : List Op) :
    session.exec (s.renumber n) ops = (session.exec s ops).renumber n := by
  induction ops generalizing s with
  | nil => rfl
  | cons o ops ih => rw [Machine.exec, step_renumber, ih, Machine.exec]

theorem trace_renumber (s : ReliableSession) (n : TransactionId) (ops : List Op) :
    session.trace (s.renumber n) ops = session.trace s ops := by
  induction ops generalizing s with
  | nil => rfl
  | cons o ops ih => rw [Machine.trace, step_renumber, ih, Machine.trace]

end Renumber

/-! ### Caching -/

/-- The arguments of `cache_response`. -/
structure Caching where
  cmd : UInt16
  txId : TransactionId
  responseCmd : UInt16
  responseBytes : List UInt8

def Caching.op (c : Caching) : Op := .cacheResponse c.cmd c.txId c.responseCmd c.responseBytes

def ReliableSession.cacheAll (s : ReliableSession) (caches : List Caching) : ReliableSession :=
  session.exec s (caches.map Caching.op)

section Caching

variable {s : ReliableSession}

theorem cacheAll_append (a b : List Caching) : s.cacheAll (a ++ b) = (s.cacheAll a).cacheAll b := by
  rw [cacheAll, List.map_append, Machine.exec_append]
  rfl

theorem cacheAll_renumber (n : TransactionId) (caches : List Caching) :
    (s.renumber n).cacheAll caches = (s.cacheAll caches).renumber n := exec_renumber s n _

theorem trace_caches (s : ReliableSession) (caches : List Caching) : session.trace s (caches.map Caching.op) = [] := by
  induction caches generalizing s with
  | nil => rfl
  | cons c caches ih => exact ih _

/-- What is cached before a registration may as well be cached after it. -/
theorem registerAll_cacheAll (s : ReliableSession) (caches : List Caching) (regs : List (Time × Registration)) :
    registerAll (s.cacheAll caches) regs = ((registerAll s regs).1.cacheAll caches, (registerAll s regs).2) := by
  have one : ∀ (s : ReliableSession) (now : Time) (r : Registration),
      (s.cacheAll caches).registerPending now r = (s.registerPending now r).cacheAll caches := by
    induction caches with
    | nil => exact fun _ _ _ => rfl
    | cons c caches ih => exact fun s now r => ih (s.cacheResponse c.cmd c.txId c.responseCmd c.responseBytes) now r
  induction regs generalizing s with
  | nil => rfl
  | cons reg regs ih => simp only [registerAll, one, ih]

theorem registerAll_append (s : ReliableSession) (a b : List (Time × Registration)) :
    registerAll s (a ++ b) = ((registerAll (registerAll s a).1 b).1,
      (registerAll s a).2 ++ (registerAll (registerAll s a).1 b).2) := by
  induction a generalizing s with
  | nil => rfl
  | cons reg a ih => simp only [List.cons_append, registerAll, ih]

theorem runCallbacks_cacheAll (reentry : TransactionId → List (Time × Registration)) (s : ReliableSession)
    (caches : List Caching) (callbacks : List (TransactionId × Bool)) :
    runCallbacks reentry (s.cacheAll caches) callbacks =
      ((runCallbacks reentry s callbacks).1.cacheAll caches, (runCallbacks reentry s callbacks).2) := by
  induction callbacks generalizing s with
  | nil => rfl
  | cons cb callbacks ih =>
    obtain ⟨t, present⟩ := cb
    cases present with
    | false => exact ih s
    | true => simp only [runCallbacks, registerAll_cacheAll, ih]

/-- Callbacks that are not due do not matter. -/
theorem runCallbacks_congr {f g : TransactionId → List (Time × Registration)} (s : ReliableSession)
    {callbacks : List (TransactionId × Bool)} (same : ∀ c ∈ callbacks, f c.1 = g c.1) :
    runCallbacks f s callbacks = runCallbacks g s callbacks := by
  induction callbacks generalizing s with
  | nil => rfl
  | cons cb callbacks ih =>
    obtain ⟨t, present⟩ := cb
    have rest := fun s => ih s fun c member => same c (List.mem_cons_of_mem _ member)
    cases present with
    | false => exact rest s
    | true => simp only [runCallbacks, same (t, true) List.mem_cons_self, rest]

end Caching

end FloridUsb.Session

namespace FloridUsb.Stack
set_option autoImplicit false

open Lib Rpl Session

/-! ### Calls of the application -/

section Calls

variable {Ts : PacketTypes}

/-- What calls of the application do to a session: they register, they cache, and they take
numbers. -/
structure CallsOn (a : ReliableSession) (regs : List (Time × Registration)) (caches : List Caching)
    (b : ReliableSession) (log : List Session.Event) : Prop where
  after : ∃ n, b = ((ReliableSession.registerAll a regs).1.cacheAll caches).renumber n
  log : log = (ReliableSession.registerAll a regs).2

theorem CallsOn.trans {a b c : ReliableSession} {regs regs' : List (Time × Registration)}
    {caches caches' : List Caching} {log log' : List Session.Event} (first : CallsOn a regs caches b log)
    (second : CallsOn b regs' caches' c log') : CallsOn a (regs ++ regs') (caches ++ caches') c (log ++ log') := by
  obtain ⟨⟨n, rfl⟩, rfl⟩ := first
  obtain ⟨⟨m, rfl⟩, rfl⟩ := second
  constructor
  · refine ⟨m, ?_⟩
    rw [registerAll_renumber, cacheAll_renumber, renumber_renumber, registerAll_cacheAll, ← cacheAll_append,
      registerAll_append]
  · rw [registerAll_renumber, registerAll_cacheAll, registerAll_append]

theorem sessionLog_transmit (s : ProtocolStack Ts) (r : TxPath × Option TxEntry) {event : TxEntry → StackEvent}
    (silent : ∀ e, (event e).session? = none) : sessionLog (s.transmit r event).2 = [] := by
  show (r.2.map event).toList.filterMap _ = []
  cases r.2 with
  | none => rfl
  | some e => simp [silent]

theorem act_calls (s : ProtocolStack Ts) (a : Act Ts) :
    ∃ regs caches, CallsOn s.session regs caches (s.act a).1.session (sessionLog (s.act a).2) := by
  cases a with
  | registerHandler cmd handler => exact ⟨[], [], ⟨s.session.nextTxId, rfl⟩, rfl⟩
  | setNextTxId t => exact ⟨[], [], ⟨_, rfl⟩, rfl⟩
  | send now args => exact ⟨[(now, args.registration s.session.takeTxId.2)], [], ⟨s.session.nextTxId + 1, rfl⟩, rfl⟩
  | sendResponseAndCache cmd t response =>
    obtain ⟨log, cases⟩ := sendResponseAndCache_parts s cmd t response
    have silent : sessionLog (s.sendResponseAndCache cmd t response).2 = [] := by
      rw [log]
      exact sessionLog_transmit s _ fun _ => rfl
    show ∃ regs caches, CallsOn s.session regs caches (s.sendResponseAndCache cmd t response).1.session
      (sessionLog (s.sendResponseAndCache cmd t response).2)
    rcases cases with same | ⟨entry, -, -, -, same⟩ <;> rw [silent, same]
    · exact ⟨[], [], ⟨s.session.nextTxId, rfl⟩, rfl⟩
    · exact ⟨[], [⟨cmd, t, response.traits.cmd, entry.frame⟩], ⟨s.session.nextTxId, rfl⟩, rfl⟩
  | broadcast packet => exact ⟨[], [], ⟨s.session.nextTxId, rfl⟩, (sessionLog_transmit s _ fun _ => rfl)⟩

theorem runActs_calls (s : ProtocolStack Ts) (acts : List (Act Ts)) :
    ∃ regs caches, CallsOn s.session regs caches (s.runActs acts).1.session (sessionLog (s.runActs acts).2) := by
  induction acts generalizing s with
  | nil => exact ⟨[], [], ⟨s.session.nextTxId, rfl⟩, rfl⟩
  | cons a acts ih =>
    obtain ⟨regs, caches, first⟩ := act_calls s a
    obtain ⟨regs', caches', rest⟩ := ih (s.act a).1
    simp only [ProtocolStack.runActs, sessionLog_append]
    exact ⟨_, _, first.trans rest⟩

/-- The error callbacks that are due are those of a session that registers what they register. -/
theorem runErrorCallbacks_calls (callbacks : TransactionId → List (Act Ts)) (s : ProtocolStack Ts)
    {due : List (TransactionId × Bool)} (distinct : (due.map Prod.fst).Nodup) :
    ∃ reentry caches n, (s.runErrorCallbacks callbacks due).1.session =
        ((ReliableSession.runCallbacks reentry s.session due).1.cacheAll caches).renumber n ∧
      sessionLog (s.runErrorCallbacks callbacks due).2 = (ReliableSession.runCallbacks reentry s.session due).2 := by
  induction due generalizing s with
  | nil => exact ⟨fun _ => [], [], s.session.nextTxId, rfl, rfl⟩
  | cons cb due ih =>
    obtain ⟨t, present⟩ := cb
    obtain ⟨fresh, others⟩ := List.nodup_cons.mp (List.map_cons ▸ distinct)
    cases present with
    | false => exact ih s others
    | true =>
      obtain ⟨regs, caches, ⟨n, after⟩, log⟩ := runActs_calls s (callbacks t)
      obtain ⟨reentry, caches', m, rest, events⟩ := ih (s.runActs (callbacks t)).1 others
      have own : Function.update reentry t regs t = regs := Function.update_self ..
      have same : ∀ c ∈ due, Function.update reentry t regs c.1 = reentry c.1 := by
        intro c member
        apply Function.update_of_ne
        intro here
        exact fresh (here ▸ List.mem_map.mpr ⟨c, member, rfl⟩)
      refine ⟨Function.update reentry t regs, caches ++ caches', m, ?_, ?_⟩
      · simp only [ProtocolStack.runErrorCallbacks, ReliableSession.runCallbacks, own,
          runCallbacks_congr _ same]
        rw [rest, after, runCallbacks_renumber, runCallbacks_cacheAll, cacheAll_renumber, renumber_renumber,
          cacheAll_append]
      · simp only [ProtocolStack.runErrorCallbacks, ReliableSession.runCallbacks, own,
          runCallbacks_congr _ same]
        have here : sessionLog [.session (.error t .timeout)] = [.error t .timeout] := rfl
        rw [← List.singleton_append, sessionLog_append, sessionLog_append, here, log, events, after,
          runCallbacks_renumber, runCallbacks_cacheAll]
        rfl

end Calls

/-! ### The simulation -/

section Simulation

variable {Ts : PacketTypes} {D : ReliableSession → Op → Prop}

/-- A received response, as it reaches the session, is an operation of a kind. -/
def StackOp.Answers (D : ReliableSession → Op → Prop) (s : ProtocolStack Ts) : StackOp Ts → Prop
  | .packet _ cmd data => cmd ≠ ACK_CMD → isRequestCmd cmd = false → extractTxIdFromRaw Ts cmd data ≠ 0 →
      D s.session (.onResponse cmd (extractTxIdFromRaw Ts cmd data) data)
  | _ => True

/-- A kind of operations that restricts responses alone, and not by the next number. -/
structure RestrictsResponses (D : ReliableSession → Op → Prop) : Prop where
  numberless : ∀ s n o, D (s.renumber n) o ↔ D s o
  others : ∀ s o, (∀ cmd t bytes, o ≠ .onResponse cmd t bytes) → D s o

/-- From one session to another, up to the next number, by session operations that log `log`. -/
def RunsTo (D : ReliableSession → Op → Prop) (a : ReliableSession) (log : List Session.Event)
    (b : ReliableSession) : Prop :=
  ∃ ps n, session.Along D a ps ∧ session.trace a ps = log ∧ b = (session.exec a ps).renumber n

theorem along_renumber (kind : RestrictsResponses D) (s : ReliableSession) (n : TransactionId) (ops : List Op) :
    session.Along D (s.renumber n) ops ↔ session.Along D s ops := by
  induction ops generalizing s with
  | nil => exact Iff.rfl
  | cons o ops ih =>
    simp only [Machine.Along, step_renumber, ih, kind.numberless]

namespace RunsTo

variable {a b c : ReliableSession} {log log' : List Session.Event}

theorem refl (a : ReliableSession) : RunsTo D a [] a := ⟨[], a.nextTxId, trivial, rfl, rfl⟩

theorem trans (kind : RestrictsResponses D) (first : RunsTo D a log b) (second : RunsTo D b log' c) :
    RunsTo D a (log ++ log') c := by
  obtain ⟨ps, n, along, rfl, rfl⟩ := first
  obtain ⟨qs, m, along', rfl, rfl⟩ := second
  rw [along_renumber kind] at along'
  refine ⟨ps ++ qs, m, (session.along_append D a ps qs).mpr ⟨along, along'⟩, ?_, ?_⟩
  · rw [session.trace_append, trace_renumber]
  · rw [session.exec_append, exec_renumber, renumber_renumber]

theorem op {o : Op} (meets : D a o) : RunsTo D a (session.step a o).2 (session.step a o).1 := by
  refine ⟨[o], (session.step a o).1.nextTxId, ⟨meets, trivial⟩, ?_, rfl⟩
  simp [Machine.trace]

/-- What a call of the application registers and caches. -/
theorem calls (kind : RestrictsResponses D) {regs : List (Time × Registration)} {caches : List Caching}
    (calls : CallsOn a regs caches b log) : RunsTo D a log b := by
  obtain ⟨⟨n, rfl⟩, rfl⟩ := calls
  have registers : RunsTo D a (ReliableSession.registerAll a regs).2 (ReliableSession.registerAll a regs).1 := by
    induction regs generalizing a with
    | nil => exact refl a
    | cons reg regs ih =>
      exact (op (o := .registerPending reg.1 reg.2) (kind.others a _ (by simp))).trans kind ih
  rw [← List.append_nil (ReliableSession.registerAll a regs).2]
  refine registers.trans kind ⟨caches.map Caching.op, n, ?_, trace_caches _ caches, rfl⟩
  apply session.along_iff_at_split.mpr
  intro pre o post split
  obtain ⟨c, -, rfl⟩ := List.mem_map.mp
      (split ▸ List.mem_append_right pre List.mem_cons_self : o ∈ caches.map Caching.op)
  exact kind.others _ _ (by simp [Caching.op])

end RunsTo

theorem sessionLog_invoke (s : ProtocolStack Ts) (cmd : UInt16) (t : TransactionId) (data : List UInt8) :
    sessionLog (s.invoke cmd t data) = [] := by
  unfold ProtocolStack.invoke
  split <;> rfl

/-- A request reaches the session once, or not at all. -/
theorem handleRequestPacket_session (s : ProtocolStack Ts) (cmd : UInt16) (data : List UInt8) :
    ((s.handleRequestPacket cmd data).1.session = s.session ∧ sessionLog (s.handleRequestPacket cmd data).2 = []) ∨
    ∃ t, (s.handleRequestPacket cmd data).1.session = (s.session.onRequest cmd t).1 ∧
      sessionLog (s.handleRequestPacket cmd data).2 = [.requested cmd t (s.session.onRequest cmd t).2] := by
  unfold ProtocolStack.handleRequestPacket
  dsimp only
  generalize extractTxIdFromRaw Ts cmd data = t
  split
  · exact .inl ⟨rfl, sessionLog_invoke s cmd t data⟩
  split
  · split
    · exact .inl ⟨rfl, sessionLog_invoke s cmd t data⟩
    · exact .inl ⟨rfl, rfl⟩
  refine .inr ⟨t, ?_⟩
  have acked : ∀ (u : ProtocolStack Ts) r event, (∀ e, StackEvent.session? (event e) = none) →
      sessionLog (.session (.requested cmd t (s.session.onRequest cmd t).2) ::
        .offered (ackOf Ts cmd t).content :: (u.transmit r event).2) =
      [.requested cmd t (s.session.onRequest cmd t).2] := by
    intro u r event silent
    have quiet := sessionLog_transmit u r silent
    simp only [sessionLog, List.filterMap_cons, StackEvent.session?] at quiet ⊢
    rw [quiet]
  split
  · split
    · split
      · refine ⟨rfl, ?_⟩
        rw [sessionLog_append, acked _ _ _ fun _ => rfl, sessionLog_transmit _ _ fun _ => rfl, List.append_nil]
      · exact ⟨rfl, acked _ _ _ fun _ => rfl⟩
    · exact ⟨rfl, acked _ _ _ fun _ => rfl⟩
  · refine ⟨rfl, ?_⟩
    rw [sessionLog_append, acked _ _ _ fun _ => rfl, sessionLog_invoke, List.append_nil]

theorem handlePacketInternal_runs (kind : RestrictsResponses D) (s : ProtocolStack Ts) (now : Time) (cmd : UInt16)
    (data : List UInt8) (answers : (StackOp.packet now cmd data).Answers D s) :
    RunsTo D s.session (sessionLog (s.handlePacketInternal now cmd data).2)
      (s.handlePacketInternal now cmd data).1.session := by
  unfold ProtocolStack.handlePacketInternal
  split
  · unfold ProtocolStack.handleAckPacket
    split
    · exact RunsTo.refl _
    · exact RunsTo.op (o := .onAck now (ackPacket.getTxId data)) (kind.others _ _ (by simp))
  rename_i noAck
  split
  · rcases handleRequestPacket_session s cmd data with ⟨same, silent⟩ | ⟨t, same, log⟩
    · rw [same, silent]
      exact RunsTo.refl _
    · rw [same, log]
      exact RunsTo.op (o := .onRequest cmd t) (kind.others _ _ (by simp))
  · rename_i noRequest
    unfold ProtocolStack.handleResponsePacket
    dsimp only
    split
    · exact RunsTo.refl _
    · rename_i some_
      rw [sessionLog_session]
      exact RunsTo.op (o := .onResponse cmd _ data) (answers noAck (Bool.eq_false_iff.mpr noRequest) some_)

theorem enqueueEntry_session (s : ProtocolStack Ts) (e : RetransmitEntry) :
    (s.enqueueEntry e).1.session = s.session ∧ sessionLog (s.enqueueEntry e).2 = [] :=
  ⟨rfl, sessionLog_transmit s _ fun _ => rfl⟩

theorem enqueueAll_silent (s : ProtocolStack Ts) (entries : List RetransmitEntry) :
    (s.enqueueAll entries).1.session = s.session ∧ sessionLog (s.enqueueAll entries).2 = [] := by
  induction entries generalizing s with
  | nil => exact ⟨rfl, rfl⟩
  | cons e entries ih =>
    obtain ⟨same, silent⟩ := ih (s.enqueueEntry e).1
    simp only [ProtocolStack.enqueueAll, sessionLog_append, (enqueueEntry_session s e).2, silent]
    exact ⟨same, rfl⟩

/-- The loop of `handle_session_outbound` calls `next_outbound` and nothing else. -/
theorem outboundLoop_runs (kind : RestrictsResponses D) (clock : Nat → Time) (fuel : Nat) (s : ProtocolStack Ts) :
    RunsTo D s.session (sessionLog (s.outboundLoop clock fuel).2) (s.outboundLoop clock fuel).1.session := by
  induction fuel generalizing s with
  | zero => exact RunsTo.refl _
  | succ fuel ih =>
    have first : RunsTo D s.session _ _ := RunsTo.op (o := .nextOutbound (clock fuel)) (kind.others _ _ (by simp))
    change RunsTo D s.session ((s.session.nextOutbound (clock fuel)).2.map Event.handedOut).toList
      (s.session.nextOutbound (clock fuel)).1 at first
    unfold ProtocolStack.outboundLoop
    generalize s.session.nextOutbound (clock fuel) = r at first
    obtain ⟨session, _ | e⟩ := r
    · exact first
    · obtain ⟨same, silent⟩ := enqueueEntry_session { s with session := session } e
      have handed : sessionLog [.session (.handedOut e)] = [.handedOut e] := rfl
      dsimp only
      split
      · exact first
      · have rest := ih (ProtocolStack.enqueueEntry { s with session := session } e).1
        rw [← List.singleton_append, sessionLog_append, sessionLog_append, handed, silent, List.nil_append]
        exact first.trans kind rest

/-- The callbacks of a poll name distinct requests. -/
theorem callbacks_nodup {s : ReliableSession} (covered : Covered s) (now : Time) (clock : TransactionId → Time) :
    ((s.pollLoop now clock).2.callbacks.map Prod.fst).Nodup := by
  obtain ⟨visits, perm, -, acc⟩ := ReliableSession.pollLoop_visits s now clock
  rw [acc, ReliableSession.collected_callbacks, List.nil_append, List.map_map]
  have keys : (visits.filter (·.2.expires now)).map (Prod.fst ∘ fun e => (e.2.txId, e.2.onError)) =
      (visits.filter (·.2.expires now)).map Prod.fst := by
    apply List.map_congr_left
    rintro ⟨t, p⟩ member
    have visited := perm.mem_iff.mp (List.mem_of_mem_filter member)
    exact covered.keyed t p (DenseMap.find?_eq_some.mpr visited)
  rw [keys]
  exact ((perm.map Prod.fst).nodup_iff.mpr s.pendingByTx.nodup).sublist (List.filter_sublist.map _)

/-- The retries of a cycle are a `poll` whose callbacks register what they register, and what these
cache. -/
theorem handleSessionRetries_polls {s : ProtocolStack Ts} (covered : Covered s.session) (now : Time)
    (clock : TransactionId → Time) (callbacks : TransactionId → List (Act Ts)) :
    ∃ reentry caches n, (s.handleSessionRetries now clock callbacks).1.session =
        ((session.step s.session (.poll now clock reentry)).1.cacheAll caches).renumber n ∧
      sessionLog (s.handleSessionRetries now clock callbacks).2 =
        (session.step s.session (.poll now clock reentry)).2 := by
  obtain ⟨reentry, caches, n, after, log⟩ := runErrorCallbacks_calls callbacks
    { s with session := (s.session.pollLoop now clock).1 } (callbacks_nodup covered now clock)
  have said : ∀ entries : List RetransmitEntry,
      sessionLog (entries.map fun e => .session (.retransmitted e)) = entries.map Event.retransmitted := by
    intro entries
    rw [← sessionLog_session (entries.map Event.retransmitted), List.map_map]
    rfl
  obtain ⟨same, silent⟩ := enqueueAll_silent
    (ProtocolStack.runErrorCallbacks callbacks { s with session := (s.session.pollLoop now clock).1 }
      (s.session.pollLoop now clock).2.callbacks).1 (s.session.pollLoop now clock).2.retries
  refine ⟨reentry, caches, n, ?_, ?_⟩
  · unfold ProtocolStack.handleSessionRetries
    dsimp only
    rw [same, after]
    rfl
  · unfold ProtocolStack.handleSessionRetries
    dsimp only
    rw [sessionLog_append, sessionLog_append, silent, log, said, List.append_nil]
    rfl

theorem handleSessionRetries_runs (kind : RestrictsResponses D) {s : ProtocolStack Ts} (covered : Covered s.session)
    (now : Time) (clock : TransactionId → Time) (callbacks : TransactionId → List (Act Ts)) :
    RunsTo D s.session (sessionLog (s.handleSessionRetries now clock callbacks).2)
      (s.handleSessionRetries now clock callbacks).1.session := by
  obtain ⟨reentry, caches, n, after, log⟩ := handleSessionRetries_polls covered now clock callbacks
  have polled : RunsTo D s.session _ _ := RunsTo.op (o := .poll now clock reentry) (kind.others _ _ (by simp))
  have calls : CallsOn (session.step s.session (.poll now clock reentry)).1 [] caches _ [] := ⟨⟨n, rfl⟩, rfl⟩
  have cached := RunsTo.calls kind calls
  have both := polled.trans kind cached
  rw [List.append_nil] at both
  rw [after, log]
  exact both

/-- An operation of a stack is a run of its session. -/
theorem step_runs (kind : RestrictsResponses D) {s : ProtocolStack Ts} (covered : Covered s.session) (o : StackOp Ts)
    (answers : o.Answers D s) : RunsTo D s.session (sessionLog ((stack Ts).step s o).2)
    ((stack Ts).step s o).1.session := by
  cases o with
  | act a =>
    obtain ⟨regs, caches, calls⟩ := act_calls s a
    exact RunsTo.calls kind calls
  | packet now cmd data => exact handlePacketInternal_runs kind s now cmd data answers
  | sessionOutbound clock => exact outboundLoop_runs kind clock _ s
  | sessionRetries now clock callbacks => exact handleSessionRetries_runs kind covered now clock callbacks
  | drainTx sendFrame =>
    have silent : sessionLog (s.drainTx sendFrame).2 = [] := by
      show ((s.tx.drainTx sendFrame).2.map StackEvent.accepted).toList.filterMap _ = []
      cases (s.tx.drainTx sendFrame).2 <;> rfl
    show RunsTo D s.session (sessionLog (s.drainTx sendFrame).2) s.session
    rw [silent]
    exact RunsTo.refl _

/-- The session of the stack is that of the run, up to the next number. -/
def SessionOf (s : ProtocolStack Ts) (t : ReliableSession) : Prop := Covered t ∧ ∃ n, s.session = t.renumber n

theorem covered_exec {t : ReliableSession} (covered : Covered t) (ops : List Op) : Covered (session.exec t ops) := by
  induction ops generalizing t with
  | nil => exact covered
  | cons o ops ih => exact ih (covered.step o)

/-- **A stack simulates its session.** -/
theorem stack_simulates_session (kind : RestrictsResponses D) :
    Simulates (stack Ts) session SessionOf (fun s o => o.Answers D s) D StackEvent.session? := by
  constructor
  rintro s t o ⟨covered, n, same⟩ answers
  have here : Covered s.session := by
    rw [same]
    exact ⟨covered.keyed, covered.counted⟩
  obtain ⟨ps, m, along, log, after⟩ := step_runs kind here o answers
  rw [same, along_renumber kind] at along
  rw [same, trace_renumber] at log
  rw [same, exec_renumber, renumber_renumber] at after
  exact ⟨ps, along, log, covered_exec covered ps, m, after⟩

/-- Every kind of run of a stack is one of its session. -/
theorem session_of_run (kind : RestrictsResponses D) (config : Config) (ops : List (StackOp Ts))
    (answers : (stack Ts).Along (fun s o => o.Answers D s) (.init Ts config) ops) :
    ∃ ps n, session.Along D (.init config) ps ∧
      session.trace (.init config) ps = sessionLog ((stack Ts).trace (.init Ts config) ops) ∧
      ((stack Ts).exec (.init Ts config) ops).session = (session.exec (.init config) ps).renumber n := by
  have start : SessionOf (ProtocolStack.init Ts config) (.init config) := ⟨Covered.init config, _, (renumber_self).symm⟩
  obtain ⟨ps, along, log, -, n, same⟩ := (stack_simulates_session kind).run start ops answers
  exact ⟨ps, n, along, log, same⟩

end Simulation

/-- All operations are of one kind. -/
theorem restricts_nothing : RestrictsResponses fun _ _ => True := ⟨fun _ _ _ => Iff.rfl, fun _ _ _ => trivial⟩

theorem StackOp.answers_anything {Ts : PacketTypes} (s : ProtocolStack Ts) (o : StackOp Ts) :
    o.Answers (fun _ _ => True) s := by
  cases o with
  | packet now cmd data => exact fun _ _ _ => trivial
  | act a | sessionOutbound clock | sessionRetries now clock callbacks | drainTx sendFrame => trivial

theorem along_anything {Ts : PacketTypes} (s : ProtocolStack Ts) (ops : List (StackOp Ts)) :
    (stack Ts).Along (fun s o => o.Answers (fun _ _ => True) s) s ops := by
  rw [(stack Ts).along_iff_at_split]
  exact fun pre o post _ => o.answers_anything _

/-- **A stack runs its session.** For every run of a stack there is a run of a session that logs
the session events of the stack, in their order, and ends in the session of the stack but for the
next transaction number. -/
theorem runs_its_session (Ts : PacketTypes) (config : Config) (ops : List (StackOp Ts)) :
    ∃ ps n, session.trace (.init config) ps = sessionLog ((stack Ts).trace (.init Ts config) ops) ∧
      ((stack Ts).exec (.init Ts config) ops).session = (session.exec (.init config) ps).renumber n := by
  obtain ⟨ps, n, -, log, same⟩ := session_of_run restricts_nothing config ops (along_anything _ ops)
  exact ⟨ps, n, log, same⟩

end FloridUsb.Stack
