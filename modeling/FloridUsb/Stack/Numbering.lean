import FloridUsb.Stack.Parts

/-!
# The numbers of the requests

Every `send` takes the number of a counter that `set_next_tx_id` may place anywhere. The counter
has 32 bits and is cut to them without a word: `next_tx_id` gives out 0, which the receiving
stack takes for no transaction, although `set_next_tx_id` refuses it; and `register_pending`
writes over a request that is pending under the same number, without giving back its place in
flight. `usable_iff` says which sends are spared, by the numbers counted without a bound.
-/

namespace FloridUsb.Stack
set_option autoImplicit false

open Lib Rpl Session

section Calls

variable {Ts : PacketTypes}

/-- A call of the application, and the stack it finds. -/
structure ActCall (Ts : PacketTypes) where
  stack : ProtocolStack Ts
  act : Act Ts

def ProtocolStack.actCalls (s : ProtocolStack Ts) : List (Act Ts) → List (ActCall Ts)
  | [] => []
  | a :: acts => ⟨s, a⟩ :: actCalls (s.act a).1 acts

/-- The calls made by the error callbacks that are due. -/
def ProtocolStack.callbackCalls (callbacks : TransactionId → List (Act Ts)) (s : ProtocolStack Ts) :
    List (TransactionId × Bool) → List (ActCall Ts)
  | [] => []
  | (txId, true) :: due => s.actCalls (callbacks txId) ++ callbackCalls callbacks (s.runActs (callbacks txId)).1 due
  | (_, false) :: due => callbackCalls callbacks s due

/-- The calls of the application in an operation. -/
def StackOp.actCalls (s : ProtocolStack Ts) : StackOp Ts → List (ActCall Ts)
  | .act a => [⟨s, a⟩]
  | .sessionRetries now clock callbacks =>
    let loop := s.session.pollLoop now clock
    ProtocolStack.callbackCalls callbacks { s with session := loop.1 } loop.2.callbacks
  | .packet _ _ _ | .sessionOutbound _ | .drainTx _ => []

variable (Ts) in
/-- A stack as a machine that logs the calls of the application. -/
def caller : Machine (ProtocolStack Ts) (StackOp Ts) (ActCall Ts) where
  step s o := (((stack Ts).step s o).1, o.actCalls s)

variable (Ts) in
/-- The numbers that sends get, without a bound: from 1 on, and from any number set. -/
def numbering : Machine Nat (Act Ts) Nat where
  step n
    | .send _ _ => (n + 1, [n])
    | .setNextTxId nextTxId => (if nextTxId = 0 then 1 else nextTxId.toNat, [])
    | .registerHandler _ _ | .sendResponseAndCache _ _ _ | .broadcast _ => (n, [])

/-- The number of the next send after the calls. -/
def nextNumber (acts : List (Act Ts)) : Nat := (numbering Ts).exec 1 acts

/-- The numbers of the sends among the calls. -/
def sendNumbers (acts : List (Act Ts)) : List Nat := (numbering Ts).trace 1 acts

/-- A `send` takes a number that is not 0 and not that of a pending request, and its registration
leaves every pending request and the count of those in flight as they are. -/
structure SendUsable (s : ProtocolStack Ts) (now : Time) (args : SendArgs Ts) : Prop where
  nonzero : s.session.takeTxId.2 ≠ 0
  fresh : s.session.pendingByTx.find? s.session.takeTxId.2 = none
  kept : ∀ t p, s.session.pendingByTx.find? t = some p → (s.send now args).1.session.pendingByTx.find? t = some p
  counted : (s.send now args).1.session.inflightCount = s.session.inflightCount ∧
    (s.send now args).1.session.inflightEntries = s.session.inflightEntries

end Calls

/-! ### What takes no number -/

/-- No number is taken, and no request comes to be pending. -/
structure Quiet (s s' : ReliableSession) : Prop where
  nextTxId : s'.nextTxId = s.nextTxId
  absent : ∀ t, s.pendingByTx.find? t = none → s'.pendingByTx.find? t = none

namespace Quiet

variable {s s' s'' : ReliableSession}

theorem refl (s : ReliableSession) : Quiet s s := ⟨rfl, fun _ absent => absent⟩

theorem trans (first : Quiet s s') (second : Quiet s' s'') : Quiet s s'' where
  nextTxId := second.nextTxId.trans first.nextTxId
  absent t gone := second.absent t (first.absent t gone)

theorem step (s : ReliableSession) (o : Op) (silent : ∀ r, .registered r ∉ (session.step s o).2) :
    Quiet s (session.step s o).1 where
  nextTxId := (ReliableSession.step_fixed s o).2
  absent t gone := by
    cases found : (session.step s o).1.pendingByTx.find? t with
    | none => rfl
    | some p =>
      rcases ReliableSession.step_pending s o t p found with ⟨q, before, -⟩ | ⟨r, member, -⟩
      · rw [gone] at before
        cases before
      · exact absurd member (silent r)

theorem onAck (s : ReliableSession) (now : Time) (t : TransactionId) : Quiet s (s.onAck now t) :=
  .step s (.onAck now t) fun r member => by cases member

theorem onRequest (s : ReliableSession) (cmd : UInt16) (t : TransactionId) : Quiet s (s.onRequest cmd t).1 :=
  .step s (.onRequest cmd t) fun r member => by cases List.mem_singleton.mp member

theorem onResponse (s : ReliableSession) (cmd : UInt16) (t : TransactionId) (bytes : List UInt8) :
    Quiet s (s.onResponse cmd t bytes).1 := by
  apply Quiet.step s (.onResponse cmd t bytes)
  intro r member
  obtain ⟨_, -, -, same⟩ := ReliableSession.mem_onResponse member
  cases same

theorem nextOutbound (s : ReliableSession) (now : Time) : Quiet s (s.nextOutbound now).1 := by
  apply Quiet.step s (.nextOutbound now)
  intro r member
  obtain ⟨_, -, same⟩ := Option.map_eq_some_iff.mp (Option.mem_toList.mp member)
  cases same

theorem pollLoop (s : ReliableSession) (now : Time) (clock : TransactionId → Time) :
    Quiet s (s.pollLoop now clock).1 where
  nextTxId := rfl
  absent t gone := by rw [ReliableSession.pollLoop_find, gone]; rfl

end Quiet

section Quiet

variable {Ts : PacketTypes}

theorem handleRequestPacket_quiet (s : ProtocolStack Ts) (cmd : UInt16) (data : List UInt8) :
    Quiet s.session (s.handleRequestPacket cmd data).1.session := by
  unfold ProtocolStack.handleRequestPacket
  dsimp only
  generalize extractTxIdFromRaw Ts cmd data = txId
  have requested := Quiet.onRequest s.session cmd txId
  split
  · exact .refl _
  split
  · split <;> exact .refl _
  split
  · split
    · split <;> exact requested
    · exact requested
  · exact requested

theorem handlePacketInternal_quiet (s : ProtocolStack Ts) (now : Time) (cmd : UInt16) (data : List UInt8) :
    Quiet s.session (s.handlePacketInternal now cmd data).1.session := by
  unfold ProtocolStack.handlePacketInternal
  split
  · unfold ProtocolStack.handleAckPacket
    split
    · exact .refl _
    · exact .onAck s.session now _
  split
  · exact handleRequestPacket_quiet s cmd data
  · unfold ProtocolStack.handleResponsePacket
    dsimp only
    split
    · exact .refl _
    · exact .onResponse s.session cmd _ data

theorem outboundLoop_quiet (clock : Nat → Time) (fuel : Nat) (s : ProtocolStack Ts) :
    Quiet s.session (s.outboundLoop clock fuel).1.session := by
  induction fuel generalizing s with
  | zero => exact .refl _
  | succ fuel ih =>
    have handed := Quiet.nextOutbound s.session (clock fuel)
    unfold ProtocolStack.outboundLoop
    generalize s.session.nextOutbound (clock fuel) = r at handed
    obtain ⟨session, _ | e⟩ := r
    · exact handed
    · dsimp only
      split
      · exact handed
      · have later := ih (({ s with session := session } : ProtocolStack Ts).enqueueEntry e).1
        exact handed.trans later

theorem enqueueAll_session (s : ProtocolStack Ts) (entries : List RetransmitEntry) :
    (s.enqueueAll entries).1.session = s.session := by
  induction entries generalizing s with
  | nil => rfl
  | cons e entries ih => exact ih _

end Quiet

/-! ### Counter and numbers -/

section Numbers

variable {Ts : PacketTypes}

theorem nextNumber_snoc (acts : List (Act Ts)) (a : Act Ts) :
    nextNumber (acts ++ [a]) = ((numbering Ts).step (nextNumber acts) a).1 :=
  (numbering Ts).exec_snoc 1 acts a

theorem sendNumbers_snoc (acts : List (Act Ts)) (a : Act Ts) :
    sendNumbers (acts ++ [a]) = sendNumbers acts ++ ((numbering Ts).step (nextNumber acts) a).2 :=
  (numbering Ts).trace_snoc 1 acts a

/-- The counter and the pending requests of a stack whose application has made the calls `acts`. -/
structure Numbered (s : ProtocolStack Ts) (acts : List (Act Ts)) : Prop where
  next : s.session.nextTxId = UInt32.ofNat (nextNumber acts)
  absent : ∀ t, (∀ m ∈ sendNumbers acts, t ≠ UInt32.ofNat m) → s.session.pendingByTx.find? t = none

namespace Numbered

variable {s s' : ProtocolStack Ts} {acts : List (Act Ts)}

theorem init (config : Config) : Numbered (.init Ts config) [] where
  next := rfl
  absent _ _ := rfl

theorem quiet (n : Numbered s acts) (quiet : Quiet s.session s'.session) : Numbered s' acts where
  next := quiet.nextTxId.trans n.next
  absent t other := quiet.absent t (n.absent t other)

/-- A call that neither sends nor sets the counter. -/
theorem idle (n : Numbered s acts) {a : Act Ts} (idle : ∀ k, (numbering Ts).step k a = (k, []))
    (quiet : Quiet s.session s'.session) : Numbered s' (acts ++ [a]) := by
  have later := n.quiet quiet
  constructor
  · rw [nextNumber_snoc, idle]
    exact later.next
  · rw [sendNumbers_snoc, idle, List.append_nil]
    exact later.absent

theorem send (n : Numbered s acts) (now : Time) (args : SendArgs Ts) :
    Numbered (s.send now args).1 (acts ++ [.send now args]) := by
  constructor
  · rw [nextNumber_snoc]
    show s.session.nextTxId + 1 = UInt32.ofNat (nextNumber acts + 1)
    rw [n.next, UInt32.ofNat_add]
    rfl
  · intro t other
    rw [sendNumbers_snoc] at other
    have mine : t ≠ s.session.nextTxId := by
      rw [n.next]
      exact other _ (List.mem_append_right _ (List.mem_singleton.mpr rfl))
    show (s.session.pendingByTx.insertOrAssign s.session.nextTxId _).find? t = none
    rw [DenseMap.find?_insertOrAssign_ne _ _ mine]
    exact n.absent t fun m earlier => other m (List.mem_append_left _ earlier)

theorem act (n : Numbered s acts) (a : Act Ts) : Numbered (s.act a).1 (acts ++ [a]) := by
  cases a with
  | send now args => exact n.send now args
  | setNextTxId t =>
    constructor
    · rw [nextNumber_snoc]
      show (if t = 0 then 1 else t) = UInt32.ofNat (if t = 0 then 1 else t.toNat)
      by_cases zero : t = 0
      · rw [if_pos zero, if_pos zero]
        rfl
      · rw [if_neg zero, if_neg zero, UInt32.ofNat_toNat]
    · rw [sendNumbers_snoc]
      intro t other
      exact n.absent t fun m earlier => other m (List.mem_append_left _ earlier)
  | sendResponseAndCache cmd txId response =>
    apply n.idle (fun _ => rfl)
    show Quiet s.session (s.sendResponseAndCache cmd txId response).1.session
    rcases (sendResponseAndCache_parts s cmd txId response).2 with same | ⟨entry, -, -, -, same⟩ <;> rw [same]
    · exact .refl _
    · exact .step s.session (.cacheResponse cmd txId response.traits.cmd entry.frame) fun r member => by cases member
  | registerHandler cmd handler | broadcast packet => exact n.idle (fun _ => rfl) (.refl _)

end Numbered

/-- A stack and the calls of its application so far, each numbered where it stands. -/
structure Tracked (s : ProtocolStack Ts) (calls : List (ActCall Ts)) : Prop where
  numbered : Numbered s (calls.map (·.act))
  calls : ∀ pre c post, calls = pre ++ c :: post → Numbered c.stack (pre.map (·.act))

namespace Tracked

variable {s s' : ProtocolStack Ts} {calls : List (ActCall Ts)}

theorem quiet (t : Tracked s calls) (quiet : Quiet s.session s'.session) : Tracked s' calls :=
  ⟨t.numbered.quiet quiet, t.calls⟩

theorem act (t : Tracked s calls) (a : Act Ts) : Tracked (s.act a).1 (calls ++ [⟨s, a⟩]) := by
  constructor
  · rw [List.map_append]
    exact t.numbered.act a
  · intro pre c post split
    rcases snoc_eq_append_cons split with ⟨rfl, rfl, -⟩ | ⟨front, -, earlier⟩
    · exact t.numbered
    · exact t.calls pre c front earlier

theorem runActs (t : Tracked s calls) (acts : List (Act Ts)) :
    Tracked (s.runActs acts).1 (calls ++ s.actCalls acts) := by
  induction acts generalizing s calls with
  | nil =>
    rw [ProtocolStack.actCalls, List.append_nil]
    exact t
  | cons a acts ih =>
    rw [ProtocolStack.actCalls, List.append_cons]
    exact ih (t.act a)

theorem runErrorCallbacks (t : Tracked s calls) (callbacks : TransactionId → List (Act Ts))
    (due : List (TransactionId × Bool)) :
    Tracked (s.runErrorCallbacks callbacks due).1 (calls ++ s.callbackCalls callbacks due) := by
  induction due generalizing s calls with
  | nil =>
    rw [ProtocolStack.callbackCalls, List.append_nil]
    exact t
  | cons cb due ih =>
    obtain ⟨txId, present⟩ := cb
    cases present with
    | false => exact ih t
    | true =>
      rw [ProtocolStack.callbackCalls, ← List.append_assoc]
      exact ih (t.runActs (callbacks txId))

theorem step (t : Tracked s calls) (o : StackOp Ts) :
    Tracked ((caller Ts).step s o).1 (calls ++ ((caller Ts).step s o).2) := by
  cases o with
  | act a => exact t.act a
  | packet now cmd data =>
    show Tracked (s.handlePacketInternal now cmd data).1 (calls ++ [])
    rw [List.append_nil]
    exact t.quiet (handlePacketInternal_quiet s now cmd data)
  | sessionOutbound clock =>
    show Tracked (s.handleSessionOutbound clock).1 (calls ++ [])
    rw [List.append_nil]
    exact t.quiet (outboundLoop_quiet clock _ s)
  | sessionRetries now clock callbacks =>
    have polled : Tracked { s with session := (s.session.pollLoop now clock).1 } calls :=
      t.quiet (.pollLoop s.session now clock)
    have called := polled.runErrorCallbacks callbacks (s.session.pollLoop now clock).2.callbacks
    apply called.quiet
    show Quiet _ (ProtocolStack.enqueueAll _ _).1.session
    rw [enqueueAll_session]
    exact .refl _
  | drainTx sendFrame =>
    show Tracked (s.drainTx sendFrame).1 (calls ++ [])
    rw [List.append_nil]
    exact t.quiet (.refl _)

theorem run (config : Config) (ops : List (StackOp Ts)) :
    Tracked ((caller Ts).exec (.init Ts config) ops) ((caller Ts).trace (.init Ts config) ops) := by
  apply (caller Ts).run_invariant_always
  · constructor
    · exact .init config
    · intro pre c post split
      cases pre <;> cases split
  · intro s calls o t
    exact t.step o

end Tracked

/-- A registration under a number that is free. -/
theorem sendUsable_of_fresh {s : ProtocolStack Ts} (nonzero : s.session.nextTxId ≠ 0)
    (fresh : s.session.pendingByTx.find? s.session.nextTxId = none) (now : Time) (args : SendArgs Ts) :
    SendUsable s now args where
  nonzero := nonzero
  fresh := fresh
  kept t p found := by
    have other : t ≠ s.session.nextTxId := by
      rintro rfl
      rw [fresh] at found
      cases found
    exact (DenseMap.find?_insertOrAssign_ne _ _ other).trans found
  counted := ⟨rfl, DenseMap.countP_insertOrAssign_new _ _ fresh⟩

/-- The counter is the next number cut to 32 bits, and what is pending was sent under such a
number. -/
theorem Numbered.sendUsable {s : ProtocolStack Ts} {acts : List (Act Ts)} (numbered : Numbered s acts) (now : Time)
    (args : SendArgs Ts) :
    SendUsable s now args ↔ nextNumber acts % 2 ^ 32 ≠ 0 ∧
      ∀ m ∈ sendNumbers acts, m % 2 ^ 32 = nextNumber acts % 2 ^ 32 →
        s.session.pendingByTx.find? (UInt32.ofNat m) = none := by
  have same : ∀ m, m % 2 ^ 32 = nextNumber acts % 2 ^ 32 ↔ UInt32.ofNat m = s.session.nextTxId := by
    intro m
    rw [numbered.next, UInt32.ofNat_eq_iff_mod_eq_toNat, UInt32.toNat_ofNat']
  have zero : nextNumber acts % 2 ^ 32 = 0 ↔ s.session.nextTxId = 0 := by
    rw [numbered.next, UInt32.ofNat_eq_iff_mod_eq_toNat]
    rfl
  constructor
  · intro usable
    constructor
    · intro multiple
      exact usable.nonzero (zero.mp multiple)
    · intro m _ agrees
      rw [(same m).mp agrees]
      exact usable.fresh
  · rintro ⟨nonzero, retired⟩
    apply sendUsable_of_fresh
    · exact fun wrapped => nonzero (zero.mpr wrapped)
    · apply Classical.byContradiction
      intro pending
      apply pending
      apply numbered.absent
      intro m earlier agrees
      have gone := retired m earlier ((same m).mpr agrees.symm)
      rw [← agrees] at gone
      exact pending gone

/-! ### Runs in which every number can be used -/

/-- Sends whose numbers differ modulo 2^32, and are never 0 there. -/
theorem usable_of_distinct (config : Config) (ops : List (StackOp Ts)) {pre post : List (ActCall Ts)}
    {s : ProtocolStack Ts} {now : Time} {args : SendArgs Ts}
    (calls : (caller Ts).trace (.init Ts config) ops = pre ++ ⟨s, .send now args⟩ :: post)
    (distinct : ((sendNumbers (((caller Ts).trace (.init Ts config) ops).map (·.act))).map (· % 2 ^ 32)).Nodup)
    (nonzero : ∀ m ∈ sendNumbers (((caller Ts).trace (.init Ts config) ops).map (·.act)), m % 2 ^ 32 ≠ 0) :
    SendUsable s now args := by
  have numbered : Numbered s (pre.map (·.act)) := (Tracked.run config ops).calls pre _ post calls
  have split : sendNumbers (((caller Ts).trace (.init Ts config) ops).map (·.act)) =
      sendNumbers (pre.map (·.act)) ++ nextNumber (pre.map (·.act)) ::
        (numbering Ts).trace (nextNumber (pre.map (·.act)) + 1) (post.map (·.act)) := by
    rw [calls, List.map_append, List.map_cons]
    exact (numbering Ts).trace_append 1 _ _
  rw [split] at distinct nonzero
  rw [numbered.sendUsable]
  refine ⟨nonzero _ (by simp), fun m earlier agrees => ?_⟩
  rw [List.map_append, List.nodup_append] at distinct
  exact absurd agrees (distinct.2.2 _ (List.mem_map_of_mem earlier) _ (by simp))

/-- Without a number set, the sends are numbered one after the other. -/
theorem sendNumbers_unseeded {acts : List (Act Ts)} (unseeded : ∀ t, .setNextTxId t ∉ acts) :
    nextNumber acts = 1 + (sendNumbers acts).length ∧
      sendNumbers acts = List.range' 1 (sendNumbers acts).length := by
  induction acts using List.reverseRecOn with
  | nil => exact ⟨rfl, rfl⟩
  | append_singleton acts a ih =>
    obtain ⟨next, numbers⟩ := ih fun t member => unseeded t (List.mem_append_left _ member)
    rw [nextNumber_snoc, sendNumbers_snoc]
    cases a with
    | send now args =>
      rw [List.length_append]
      show nextNumber acts + 1 = 1 + ((sendNumbers acts).length + 1) ∧
        sendNumbers acts ++ [nextNumber acts] = List.range' 1 ((sendNumbers acts).length + 1)
      rw [List.range'_1_concat, ← numbers, next]
      exact ⟨by omega, rfl⟩
    | setNextTxId t => exact absurd (by simp) (unseeded t)
    | registerHandler cmd handler | sendResponseAndCache cmd txId response | broadcast packet =>
      rw [show ((numbering Ts).step (nextNumber acts) _).2 = [] from rfl, List.append_nil]
      exact ⟨next, numbers⟩

/-- A stack that never sets the counter can use its first 2^32 - 1 numbers, whatever is pending. -/
theorem usable_of_unseeded (config : Config) (ops : List (StackOp Ts)) {pre post : List (ActCall Ts)}
    {s : ProtocolStack Ts} {now : Time} {args : SendArgs Ts}
    (calls : (caller Ts).trace (.init Ts config) ops = pre ++ ⟨s, .send now args⟩ :: post)
    (unseeded : ∀ t, .setNextTxId t ∉ ((caller Ts).trace (.init Ts config) ops).map (·.act))
    (few : (sendNumbers (((caller Ts).trace (.init Ts config) ops).map (·.act))).length < 2 ^ 32) :
    SendUsable s now args := by
  have numbers := (sendNumbers_unseeded unseeded).2
  have bounds : ∀ m ∈ sendNumbers (((caller Ts).trace (.init Ts config) ops).map (·.act)), 0 < m ∧ m < 2 ^ 32 := by
    intro m member
    rw [numbers, List.mem_range'_1] at member
    omega
  apply usable_of_distinct config ops calls
  · have same := List.map_congr_left fun m member => Nat.mod_eq_of_lt (bounds m member).2
    rw [same, List.map_id', numbers]
    exact List.nodup_range'
  · intro m member
    rw [Nat.mod_eq_of_lt (bounds m member).2]
    exact Nat.ne_of_gt (bounds m member).1

/-- **Which sends get a number that can be used**: those whose number, counted without a bound, is
not a multiple of 2^32, when the earlier requests with the same number modulo 2^32 are no longer
pending. -/
theorem usable_iff (config : Config) (ops : List (StackOp Ts)) {pre post : List (ActCall Ts)} {s : ProtocolStack Ts}
    {now : Time} {args : SendArgs Ts}
    (calls : (caller Ts).trace (.init Ts config) ops = pre ++ ⟨s, .send now args⟩ :: post) :
    SendUsable s now args ↔
      nextNumber (pre.map (·.act)) % 2 ^ 32 ≠ 0 ∧
        ∀ m ∈ sendNumbers (pre.map (·.act)), m % 2 ^ 32 = nextNumber (pre.map (·.act)) % 2 ^ 32 →
          s.session.pendingByTx.find? (UInt32.ofNat m) = none :=
  ((Tracked.run config ops).calls pre _ post calls).sendUsable now args

end Numbers

def sampleSend : SendArgs Arm.armPackets where
  request := ⟨Arm.setZeroRequestPacket, List.replicate 5 0, by decide, List.length_replicate⟩
  hasTxId := rfl
  responseCmd := 0x6108
  onResponse := true
  onError := true

/-- The second of two sends in a row. -/
theorem usable_iff_second :
    let first := ProtocolStack.init Arm.armPackets {}
    let second := (first.send 0 sampleSend).1
    SendUsable second 5 sampleSend := by
  intro first second
  have calls : (caller Arm.armPackets).trace first [.act (.send 0 sampleSend), .act (.send 5 sampleSend)] =
      [⟨first, .send 0 sampleSend⟩] ++ [⟨second, .send 5 sampleSend⟩] := rfl
  rw [usable_iff {} _ calls]
  constructor
  · decide
  · intro m earlier agrees
    obtain rfl : m = 1 := List.mem_singleton.mp earlier
    exact absurd agrees (by decide)

/-- **Numbers that cannot be used.** After the number 2^32 - 1 comes 0. And after the counter is
set back to 1, the second send writes over the first one, which is in flight: the count keeps its
place, and no entry is in flight any more. -/
theorem unusable_numbers :
    let wrapped := (stack Arm.armPackets).exec (.init Arm.armPackets {})
      [.act (.setNextTxId 0xFFFFFFFF), .act (.send 0 sampleSend)]
    let seeded := (stack Arm.armPackets).exec (.init Arm.armPackets {})
      [.act (.send 0 sampleSend), .sessionOutbound fun _ => 5, .act (.setNextTxId 1)]
    let after := (seeded.send 9 sampleSend).1.session
    (wrapped.session.takeTxId.2 = 0 ∧ ¬ SendUsable wrapped 5 sampleSend) ∧
      seeded.session.inflightCount = 1 ∧ seeded.session.inflightEntries = 1 ∧
      after.inflightCount = 1 ∧ after.inflightEntries = 0 ∧ ¬ SendUsable seeded 9 sampleSend := by
  intro wrapped seeded after
  have zero : wrapped.session.takeTxId.2 = 0 := by decide
  have before : seeded.session.inflightCount = 1 ∧ seeded.session.inflightEntries = 1 := by decide +kernel
  have lost : after.inflightCount = 1 ∧ after.inflightEntries = 0 := by decide +kernel
  refine ⟨⟨zero, fun usable => usable.nonzero zero⟩, before.1, before.2, lost.1, lost.2, ?_⟩
  intro usable
  have same : after.inflightEntries = seeded.session.inflightEntries := usable.counted.2
  rw [lost.2, before.2] at same
  cases same

end FloridUsb.Stack
