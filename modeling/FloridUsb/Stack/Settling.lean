import FloridUsb.Session.Settling
import FloridUsb.Stack.SessionRuns

/-!
# A stack comes to rest

The polls of a stack that come at its wake time or later are bounded by the retries of the
requests it registers (`wakeups_bounded`). Conversely a cycle of the main loop that finds a
request pending always leaves a wake time, however much of the transmit queue is taken, unless a
transaction was registered twice. So a stack that registers none twice, is left alone and polls in
time has nothing pending after a bounded number of cycles, and each request has had its answer or
its timeout if responses come with the types registered for them (`settles`).
-/

namespace FloridUsb.Stack
set_option autoImplicit false

open Lib Rpl Session

variable {Ts : PacketTypes}

/-! ### The credit of a stack -/

@[simp] theorem credit_renumber (s : ReliableSession) (n : TransactionId) : (s.renumber n).credit = s.credit := rfl

theorem credit_cacheAll (s : ReliableSession) (caches : List Caching) : (s.cacheAll caches).credit = s.credit := by
  induction caches generalizing s with
  | nil => rfl
  | cons c caches ih => exact ih _

/-- Session operations cost their credit. -/
theorem RunsTo.credit {D : ReliableSession → Op → Prop} {a b : ReliableSession} {log : List Session.Event}
    (runs : RunsTo D a log b) : b.credit ≤ a.credit + allowance log := by
  obtain ⟨ps, n, -, rfl, rfl⟩ := runs
  have paid := session.potential (P := fun s o => o.wakes s) (I := fun _ => True) (c := ReliableSession.credit)
    allowance_append (fun _ _ _ => trivial) (fun s o _ => step_credit s o) (s := a) trivial ps
  rw [credit_renumber]
  omega

/-- A poll that does not come before the wake time. -/
def StackOp.wakes (s : ProtocolStack Ts) : StackOp Ts → Bool
  | .sessionRetries now _ _ => s.nextWakeTime.any fun d => decide (d ≤ now)
  | _ => false

/-- An operation of a stack costs its credit. -/
theorem stack_step_credit {s : ProtocolStack Ts} (covered : Covered s.session) (o : StackOp Ts) :
    ((stack Ts).step s o).1.session.credit + (if o.wakes s then 1 else 0) ≤
      s.session.credit + allowance (sessionLog ((stack Ts).step s o).2) := by
  have others : o.wakes s = false → ((stack Ts).step s o).1.session.credit + (if o.wakes s then 1 else 0) ≤
      s.session.credit + allowance (sessionLog ((stack Ts).step s o).2) := by
    intro sleeps
    rw [sleeps]
    exact (step_runs restricts_nothing covered o (o.answers_anything s)).credit
  cases o with
  | sessionRetries now clock callbacks =>
    obtain ⟨reentry, caches, n, after, log⟩ := handleSessionRetries_polls covered now clock callbacks
    have paid := step_credit s.session (.poll now clock reentry)
    show (s.handleSessionRetries now clock callbacks).1.session.credit + _ ≤
      s.session.credit + allowance (sessionLog (s.handleSessionRetries now clock callbacks).2)
    rw [after, log, credit_renumber, credit_cacheAll]
    exact paid
  | act a | packet now cmd data | sessionOutbound clock | drainTx sendFrame => exact others rfl

theorem covered_step {s : ProtocolStack Ts} (covered : Covered s.session) (o : StackOp Ts) :
    Covered ((stack Ts).step s o).1.session := by
  obtain ⟨ps, n, -, -, after⟩ := step_runs restricts_nothing covered o (o.answers_anything s)
  have kept := covered_exec covered ps
  rw [after]
  exact ⟨kept.keyed, kept.counted⟩

theorem stack_credit {s : ProtocolStack Ts} (covered : Covered s.session) (ops : List (StackOp Ts)) :
    ((stack Ts).exec s ops).session.credit + (stack Ts).countAlong (fun s o => o.wakes s) s ops ≤
      s.session.credit + allowance (sessionLog ((stack Ts).trace s ops)) :=
  (stack Ts).potential (I := fun s => Covered s.session) (c := fun s => s.session.credit)
    (g := fun log => allowance (sessionLog log)) (fun a b => by rw [sessionLog_append, allowance_append])
    (fun _ o covered => covered_step covered o) (fun _ o covered => stack_step_credit covered o) covered ops

/-- **Wakeups are bounded.** In every run of a stack, whatever is received, registered and sent,
the polls that come at the wake time or later are no more than the requests registered and the
retries they allow, less the credit of those still pending. -/
theorem wakeups_bounded (Ts : PacketTypes) (config : Config) (ops : List (StackOp Ts)) :
    (stack Ts).countAlong (fun s o => o.wakes s) (.init Ts config) ops +
        ((stack Ts).exec (.init Ts config) ops).session.credit ≤
      allowance (sessionLog ((stack Ts).trace (.init Ts config) ops)) := by
  have paid := stack_credit (s := .init Ts config) (Covered.init config) ops
  have nothing : (ProtocolStack.init Ts config).session.credit = 0 := rfl
  omega

/-! ### No request is stranded -/

/-- The window of a stack is that of the session it runs. -/
theorem window_of_run (config : Config) (ops : List (StackOp Ts))
    (once : RegisteredOnce (sessionLog ((stack Ts).trace (.init Ts config) ops))) :
    Window ((stack Ts).exec (.init Ts config) ops).session (sessionLog ((stack Ts).trace (.init Ts config) ops)) ∧
      0 < ((stack Ts).exec (.init Ts config) ops).session.config.windowSize := by
  obtain ⟨ps, n, -, log, same⟩ := session_of_run restricts_nothing config ops (along_anything _ ops)
  rw [← log] at once ⊢
  have w := (notified_run config ps once).1
  rw [same]
  constructor
  · exact w.of_eq rfl rfl rfl rfl
  · show 0 < (session.exec (.init config) ps).config.windowSize
    rw [ReliableSession.exec_config, ReliableSession.init]
    show 0 < if config.windowSize = 0 then 1 else config.windowSize
    split <;> omega

/-- The loop of `handle_session_outbound` does not end without a wake time while a request is
pending: it stops when nothing can be handed out, or at a request that it has handed out. -/
theorem outboundLoop_wakes (clock : Nat → Time) (fuel : Nat) {s : ProtocolStack Ts} {log : List Session.Event}
    (w : Window s.session log) (some_ : 0 < s.session.config.windowSize)
    (enough : s.session.outboundQueue.length < fuel)
    (pending : s.session.pendingByTx.entries ≠ []) : (s.outboundLoop clock fuel).1.nextWakeTime.isSome := by
  induction fuel generalizing s log with
  | zero => exact absurd enough (Nat.not_lt_zero _)
  | succ fuel ih =>
    unfold ProtocolStack.outboundLoop
    have after := w.outbound (clock fuel)
    cases out : (s.session.nextOutbound (clock fuel)).2 with
    | none =>
      have flying := (w.not_stranded some_ out pending).2
      generalize s.session.nextOutbound (clock fuel) = r at out flying
      obtain ⟨session, _⟩ := r
      cases out
      exact flying
    | some e =>
      obtain ⟨shorter, config, count⟩ := ReliableSession.nextOutbound_hands out
      rw [after.counted] at count
      have flying := ReliableSession.nextDeadline_isSome count
      have still : (s.session.nextOutbound (clock fuel)).1.pendingByTx.entries ≠ [] := by
        intro none
        rw [ReliableSession.inflightEntries, none] at count
        cases count
      generalize s.session.nextOutbound (clock fuel) = r at out after flying shorter config still
      obtain ⟨session, _⟩ := r
      cases out
      dsimp only at after flying shorter config still ⊢
      split
      · exact flying
      · exact ih (s := (ProtocolStack.enqueueEntry { s with session := session } e).1) after (config ▸ some_)
          (by show session.outboundQueue.length < fuel; omega) still

/-! ### The main loop -/

/-- A `run_one_cycle`, after the operations since the one before: the calls of the application and
the packets that `drain_rx` parses. -/
structure Cycle (Ts : PacketTypes) where
  before : List (StackOp Ts)
  outbound : Nat → Time
  now : Time
  clock : TransactionId → Time
  callbacks : TransactionId → List (Act Ts)
  sendFrame : Option Bool

/-- The operations up to `handle_session_outbound`. -/
def Cycle.pumped (c : Cycle Ts) : List (StackOp Ts) := c.before ++ [.sessionOutbound c.outbound]

def Cycle.ops (c : Cycle Ts) : List (StackOp Ts) :=
  c.pumped ++ [.sessionRetries c.now c.clock c.callbacks, .drainTx c.sendFrame]

/-- The cycle polls at the wake time it finds, or later. -/
def Cycle.Timely (s : ProtocolStack Ts) (c : Cycle Ts) : Prop :=
  ∀ d, ((stack Ts).exec s c.pumped).nextWakeTime = some d → d ≤ c.now

/-- The main loop of a stack. -/
def mainLoop (Ts : PacketTypes) : Machine (ProtocolStack Ts) (Cycle Ts) StackEvent where
  step s c := ((stack Ts).exec s c.ops, (stack Ts).trace s c.ops)

section MainLoop

variable {s : ProtocolStack Ts}

theorem mainLoop_exec (s : ProtocolStack Ts) (cycles : List (Cycle Ts)) :
    (mainLoop Ts).exec s cycles = (stack Ts).exec s (cycles.flatMap Cycle.ops) := by
  induction cycles generalizing s with
  | nil => rfl
  | cons c cycles ih =>
    rw [List.flatMap_cons, (stack Ts).exec_append]
    exact ih _

/-- Operations that register nothing bring no credit. -/
theorem credit_quiet (covered : Covered s.session) {ops : List (StackOp Ts)}
    (quiet : ∀ r, .registered r ∉ sessionLog ((stack Ts).trace s ops)) :
    ((stack Ts).exec s ops).session.credit + (stack Ts).countAlong (fun s o => o.wakes s) s ops ≤ s.session.credit := by
  have paid := stack_credit covered ops
  rw [allowance_quiet quiet] at paid
  exact paid

theorem covered_run (config : Config) (ops : List (StackOp Ts)) :
    Covered ((stack Ts).exec (.init Ts config) ops).session := by
  obtain ⟨ps, n, -, -, same⟩ := session_of_run restricts_nothing config ops (along_anything _ ops)
  have kept := Covered.run config ps
  rw [same]
  exact ⟨kept.keyed, kept.counted⟩

/-- A cycle that polls in time and in which nothing is registered costs some of the credit left. -/
theorem cycle_credit (config : Config) (pre : List (StackOp Ts)) (c : Cycle Ts)
    (once : RegisteredOnce (sessionLog ((stack Ts).trace (.init Ts config) (pre ++ c.ops))))
    (timely : c.Timely ((stack Ts).exec (.init Ts config) pre))
    (quiet : ∀ r, .registered r ∉ sessionLog ((stack Ts).trace ((stack Ts).exec (.init Ts config) pre) c.ops)) :
    ((stack Ts).exec (.init Ts config) (pre ++ c.ops)).session.credit ≤
      ((stack Ts).exec (.init Ts config) pre).session.credit - 1 := by
  have covered := covered_run config pre
  rw [(stack Ts).exec_append]
  generalize here : (stack Ts).exec (.init Ts config) pre = s at covered timely quiet ⊢
  have split := quiet
  rw [Cycle.ops, (stack Ts).trace_append, sessionLog_append] at split
  have early : ∀ r, .registered r ∉ sessionLog ((stack Ts).trace s c.pumped) :=
    fun r member => split r (List.mem_append_left _ member)
  have late : ∀ r, .registered r ∉ sessionLog ((stack Ts).trace ((stack Ts).exec s c.pumped)
      [.sessionRetries c.now c.clock c.callbacks, .drainTx c.sendFrame]) :=
    fun r member => split r (List.mem_append_right _ member)
  have polledCovered : Covered ((stack Ts).exec s c.pumped).session := by
    rw [← here, ← (stack Ts).exec_append]
    exact covered_run config _
  have first := credit_quiet covered early
  have second := credit_quiet polledCovered late
  rw [← (stack Ts).exec_append, ← Cycle.ops] at second
  by_cases spent : ((stack Ts).exec s c.pumped).session.credit = 0
  · omega
  -- something is pending before the pump, so that there is a wake time after it
  have wakes : ((stack Ts).exec s c.pumped).nextWakeTime.isSome := by
    have before := early
    rw [Cycle.pumped, (stack Ts).trace_append, sessionLog_append] at before
    have reached : Covered ((stack Ts).exec s c.before).session := by
      rw [← here, ← (stack Ts).exec_append]
      exact covered_run config _
    have pumped := credit_quiet reached fun r member => before r (List.mem_append_right _ member)
    rw [← (stack Ts).exec_append, ← Cycle.pumped] at pumped
    have pending : ((stack Ts).exec s c.before).session.pendingByTx.entries ≠ [] := by
      intro none
      have zero := pending_of_credit.mpr none
      omega
    rw [Cycle.ops, Cycle.pumped, List.append_assoc, ← List.append_assoc, (stack Ts).trace_append,
      sessionLog_append] at once
    obtain ⟨w, some_⟩ := window_of_run config (pre ++ c.before) once.left
    rw [(stack Ts).exec_append, here] at w some_
    rw [Cycle.pumped, (stack Ts).exec_append]
    exact outboundLoop_wakes c.outbound _ w some_ (Nat.lt_succ_self _) pending
  obtain ⟨d, next⟩ := Option.isSome_iff_exists.mp wakes
  have woken : (StackOp.sessionRetries c.now c.clock c.callbacks).wakes ((stack Ts).exec s c.pumped) = true := by
    show ((stack Ts).exec s c.pumped).nextWakeTime.any _ = true
    rw [next]
    exact decide_eq_true (timely d next)
  rw [Machine.countAlong, woken, if_pos rfl] at second
  omega

end MainLoop

/-- The kind of responses that match their requests. -/
theorem restricts_matching : RestrictsResponses Matches := by
  constructor
  · intro s n o
    cases o <;> exact Iff.rfl
  · intro s o others
    cases o with
    | onResponse cmd t bytes => exact absurd rfl (others cmd t bytes)
    | registerPending | onAck | onRequest | cacheResponse | poll | nextOutbound | resetDeviceState => trivial

/-- **A stack comes to rest.** If no transaction is registered twice in the whole run, then after any
run as many cycles as the pending requests have credit leave nothing pending, if each polls no
earlier than the wake time it finds and nothing more is registered; the transmit queue may be full,
and `send_frame` may refuse. If moreover responses have the types registered for them, every request
with both callbacks has had exactly one of them. -/
theorem settles (config : Config) (pre : List (StackOp Ts)) (cycles : List (Cycle Ts))
    (once : RegisteredOnce (sessionLog ((stack Ts).trace (.init Ts config) (pre ++ cycles.flatMap Cycle.ops))))
    (timely : (mainLoop Ts).Along Cycle.Timely ((stack Ts).exec (.init Ts config) pre) cycles)
    (quiet : ∀ r, .registered r ∉
      sessionLog ((mainLoop Ts).trace ((stack Ts).exec (.init Ts config) pre) cycles))
    (enough : ((stack Ts).exec (.init Ts config) pre).session.credit ≤ cycles.length) :
    let ops := pre ++ cycles.flatMap Cycle.ops
    let log := sessionLog ((stack Ts).trace (.init Ts config) ops)
    ((mainLoop Ts).exec ((stack Ts).exec (.init Ts config) pre) cycles).session.pendingByTx.entries = [] ∧
      ((stack Ts).Along (fun s o => o.Answers Matches s) (.init Ts config) ops →
        ∀ r, .registered r ∈ log → r.onResponse = true → r.onError = true → (callbacksFor r.txId log).length = 1) := by
  intro ops log
  have rest : ((mainLoop Ts).exec ((stack Ts).exec (.init Ts config) pre) cycles).session.pendingByTx.entries = [] := by
    clear log ops
    rw [← pending_of_credit]
    induction cycles generalizing pre with
    | nil => exact Nat.le_zero.mp enough
    | cons c cycles ih =>
      rw [Machine.trace, sessionLog_append] at quiet
      rw [List.flatMap_cons, ← List.append_assoc] at once
      have first := cycle_credit config pre c
        (by rw [(stack Ts).trace_append, sessionLog_append] at once; exact once.left) timely.1
        fun r member => quiet r (List.mem_append_left _ member)
      have step : ((mainLoop Ts).step ((stack Ts).exec (.init Ts config) pre) c).1 =
          (stack Ts).exec (.init Ts config) (pre ++ c.ops) := ((stack Ts).exec_append _ pre c.ops).symm
      rw [List.length_cons] at enough
      rw [Machine.exec, step]
      refine ih (pre ++ c.ops) once (step ▸ timely.2) ?_ (by omega)
      exact fun r member => quiet r (List.mem_append_right _ (step ▸ member))
  refine ⟨rest, fun matching r registered onResponse onError => ?_⟩
  obtain ⟨ps, n, along, said, same⟩ := session_of_run restricts_matching config _ matching
  rw [mainLoop_exec, ← (stack Ts).exec_append, same] at rest
  have gone : (session.exec (.init config) ps).pendingByTx.find? r.txId = none := by
    cases found : (session.exec (.init config) ps).pendingByTx.find? r.txId with
    | none => rfl
    | some p =>
      have member := DenseMap.find?_eq_some.mp found
      rw [show (session.exec (.init config) ps).pendingByTx.entries = [] from rest] at member
      cases member
  have accounts := accounted config ps (said ▸ once) along (said ▸ registered) onResponse onError gone
  rw [said] at accounts
  exact accounts

/-- A request with one retry that nobody answers: it is given up in the second cycle. -/
theorem settles_unanswered :
    let request : Packet Arm.testArm := ⟨Arm.setMotorStateRequestPacket,
      List.replicate Arm.setMotorStateRequestPacket.size 0, by decide, List.length_replicate⟩
    let args : SendArgs Arm.testArm := ⟨request, rfl, Arm.setMotorStateResponsePacket.cmd, true, true, 100, 1⟩
    let pre : List (StackOp Arm.testArm) := [.act (.send 0 args)]
    let cycle (now : Time) : Cycle Arm.testArm := ⟨[], fun _ => 5, now, fun _ => now, fun _ => [], some true⟩
    let log := sessionLog ((stack Arm.testArm).trace (.init _ {}) (pre ++ [cycle 105, cycle 300].flatMap Cycle.ops))
    ((mainLoop Arm.testArm).exec ((stack Arm.testArm).exec (.init _ {}) pre)
      [cycle 105, cycle 300]).session.pendingByTx.entries = [] ∧ (callbacksFor 1 log).length = 1 := by
  intro request args pre cycle log
  have once : RegisteredOnce log := by
    show (registeredTxs log).Nodup
    decide +kernel
  have matching : (stack Arm.testArm).Along (fun s o => o.Answers Matches s) (.init _ {})
      (pre ++ [cycle 105, cycle 300].flatMap Cycle.ops) := by
    apply (stack Arm.testArm).along_iff_at_split.mpr
    rintro before (a | ⟨now, cmd, data⟩ | clock | ⟨now, clock, callbacks⟩ | sendFrame) after split
    case packet =>
      have member := split ▸ List.mem_append_right before List.mem_cons_self
      simp [pre, cycle, Cycle.ops, Cycle.pumped] at member
    all_goals trivial
  have timely : (mainLoop Arm.testArm).Along Cycle.Timely ((stack Arm.testArm).exec (.init _ {}) pre)
      [cycle 105, cycle 300] := by
    have reached : ∀ {s : ProtocolStack Arm.testArm} {c : Cycle Arm.testArm},
        (((stack _).exec s c.pumped).nextWakeTime.all fun d => decide (d ≤ c.now)) = true → c.Timely s := by
      intro s c all d next
      rw [next] at all
      exact of_decide_eq_true all
    exact ⟨reached (by decide +kernel), reached (by decide +kernel), trivial⟩
  have quiet : ∀ r, .registered r ∉
      sessionLog ((mainLoop _).trace ((stack Arm.testArm).exec (.init _ {}) pre) [cycle 105, cycle 300]) := by
    intro r member
    have none : registeredTxs (sessionLog ((mainLoop _).trace ((stack Arm.testArm).exec (.init _ {}) pre)
        [cycle 105, cycle 300])) = [] := by decide +kernel
    exact List.not_mem_nil (none ▸ List.mem_filterMap.mpr ⟨_, member, rfl⟩ : r.txId ∈ [])
  obtain ⟨rest, notified⟩ := settles {} pre [cycle 105, cycle 300] once timely quiet (by decide +kernel)
  refine ⟨rest, notified matching (args.registration 1) ?_ rfl rfl⟩
  decide +kernel

end FloridUsb.Stack
