import FloridUsb.Stack.Protocol

/-!
# Repeated requests

A stack invokes the handler of a reliable request only for a key its ring of seen requests has
just accepted as new. The ring accepts no key again before it has accepted 64 others
(`Remembers`), and so no request is handled a second time before as many others were accepted.
-/

namespace FloridUsb.Stack
set_option autoImplicit false

open Lib Rpl Session

/-- What happens to a reliable request: it is accepted as new, and its handler is invoked. -/
inductive Mark where
  | accepted (k : RequestKey)
  | handled (k : RequestKey)
deriving DecidableEq

def StackEvent.mark? : StackEvent → Option Mark
  | .session (.requested cmd txId result) => if result.isDuplicate then none else some (.accepted (cmd, txId))
  | .handler _ cmd txId _ => if cmd < 0x6300 ∧ txId ≠ 0 then some (.handled (cmd, txId)) else none
  | _ => none

def marks (log : List StackEvent) : List Mark := log.filterMap StackEvent.mark?

def Mark.accepted? : Mark → Option RequestKey
  | .accepted k => some k
  | .handled _ => none

def Mark.handled? : Mark → Option RequestKey
  | .accepted _ => none
  | .handled k => some k

/-- The keys accepted as new, in order. -/
def acceptedKeys (ms : List Mark) : List RequestKey := ms.filterMap Mark.accepted?

/-- The keys whose handler is invoked, in order. -/
def handledKeys (ms : List Mark) : List RequestKey := ms.filterMap Mark.handled?

@[simp] theorem marks_append (a b : List StackEvent) : marks (a ++ b) = marks a ++ marks b := List.filterMap_append

@[simp] theorem acceptedKeys_append (a b : List Mark) : acceptedKeys (a ++ b) = acceptedKeys a ++ acceptedKeys b :=
  List.filterMap_append

/-- Keys that are never handled twice. -/
theorem handledKeys_nodup {ms : List Mark}
    (once : ∀ k a mid post, ms ≠ a ++ .handled k :: (mid ++ .handled k :: post)) :
    (handledKeys ms).Nodup := by
  induction ms with
  | nil => exact List.nodup_nil
  | cons m ms ih =>
    have rest : (handledKeys ms).Nodup := by
      apply ih
      rintro k a mid post rfl
      exact once k (m :: a) mid post rfl
    cases m with
    | accepted k => exact rest
    | handled k =>
      refine List.nodup_cons.mpr ⟨fun member => ?_, rest⟩
      obtain ⟨mark, later, same⟩ := List.mem_filterMap.mp member
      cases mark with
      | accepted j => cases same
      | handled j =>
        cases same
        obtain ⟨mid, post, rfl⟩ := List.append_of_mem later
        exact once k [] mid post rfl

/-- Each handled key has been accepted right before. -/
def Preceded (ms : List Mark) : Prop := ∀ pre k post, ms = pre ++ .handled k :: post → pre.getLast? = some (.accepted k)

theorem Preceded.accept {ms : List Mark} (preceded : Preceded ms) (k : RequestKey) :
    Preceded (ms ++ [.accepted k]) := by
  intro pre j post split
  rcases snoc_eq_append_cons split with ⟨-, other, -⟩ | ⟨front, -, earlier⟩
  · cases other
  · exact preceded pre j front earlier

theorem Preceded.handle {ms : List Mark} (preceded : Preceded ms) {k : RequestKey}
    (last : ms.getLast? = some (.accepted k)) :
    Preceded (ms ++ [.handled k]) := by
  intro pre j post split
  rcases snoc_eq_append_cons split with ⟨rfl, same, -⟩ | ⟨front, -, earlier⟩
  · cases same
    exact last
  · exact preceded pre j front earlier

/-- The key of the ring. -/
def dedupKey (k : RequestKey) : DedupKey := composeDedupKey k.1 k.2

/-- The key of a packet that is a reliable request. -/
def requestKey (Ts : PacketTypes) (f : Frame) : Option RequestKey :=
  let txId := extractTxIdFromRaw Ts f.cmd f.payload
  if isRequestCmd f.cmd ∧ f.cmd < 0x6300 ∧ txId ≠ 0 then some (f.cmd, txId) else none

theorem requestKey_eq_some {Ts : PacketTypes} {f : Frame} {k : RequestKey} (key : requestKey Ts f = some k) :
    k = (f.cmd, extractTxIdFromRaw Ts f.cmd f.payload) := by
  unfold requestKey at key
  dsimp only at key
  split at key
  · exact (Option.some.inj key).symm
  · cases key

def StackOp.requestKey {Ts : PacketTypes} : StackOp Ts → Option RequestKey
  | .packet _ cmd data => Stack.requestKey Ts ⟨cmd, data⟩
  | _ => none

/-! ### What an operation says about requests -/

section Screen

variable {Ts : PacketTypes}

/-- Nothing is accepted and the ring stays, or the request `key` is: it is not in the ring, it
comes into the ring, and its handler may be invoked. -/
def Screens (s s' : ProtocolStack Ts) (ev : List StackEvent) (key : Option RequestKey) : Prop :=
  (marks ev = [] ∧ s'.session.seenRequests = s.session.seenRequests) ∨
    ∃ k, key = some k ∧ dedupKey k ∉ s.session.seenRequests.ids ∧
      s'.session.seenRequests = (s.session.seenRequests.testAndInsert (dedupKey k)).1 ∧
      (marks ev = [.accepted k] ∨ marks ev = [.accepted k, .handled k])

theorem marks_transmit (s : ProtocolStack Ts) (r : TxPath × Option TxEntry) (event : TxEntry → StackEvent)
    (quiet : ∀ e, (event e).mark? = none) : marks (s.transmit r event).2 = [] := by
  rw [marks, List.filterMap_eq_nil_iff]
  intro e member
  obtain ⟨entry, -, rfl⟩ := Option.map_eq_some_iff.mp (Option.mem_toList.mp member)
  exact quiet entry

theorem marks_session {events : List Session.Event} (quiet : ∀ cmd txId result, .requested cmd txId result ∉ events) :
    marks (events.map .session) = [] := by
  rw [marks, List.filterMap_eq_nil_iff]
  intro e member
  obtain ⟨ev, logged, rfl⟩ := List.mem_map.mp member
  cases ev with
  | requested cmd txId result => exact absurd logged (quiet cmd txId result)
  | registered _ | handedOut _ | retransmitted _ | response _ _ _ | error _ _ => rfl

theorem act_screens (s : ProtocolStack Ts) (a : Act Ts) :
    marks (s.act a).2 = [] ∧ (s.act a).1.session.seenRequests = s.session.seenRequests := by
  cases a with
  | registerHandler cmd handler | setNextTxId nextTxId | send now args => exact ⟨rfl, rfl⟩
  | sendResponseAndCache requestCmd txId response =>
    show marks (s.sendResponseAndCache requestCmd txId response).2 = [] ∧
      (s.sendResponseAndCache requestCmd txId response).1.session.seenRequests = _
    unfold ProtocolStack.sendResponseAndCache
    split
    · exact ⟨rfl, rfl⟩
    · split <;> exact ⟨rfl, rfl⟩
  | broadcast packet =>
    constructor
    · exact marks_transmit s (s.tx.enqueuePacket packet false) (.enqueued packet.content) fun _ => rfl
    · rfl

theorem Screens.acceptedKeys_sublist {s s' : ProtocolStack Ts} {ev : List StackEvent} {key : Option RequestKey}
    (screens : Screens s s' ev key) : (acceptedKeys (marks ev)).Sublist key.toList := by
  rcases screens with ⟨silent, -⟩ | ⟨k, rfl, -, -, said⟩
  · rw [silent]
    exact List.nil_sublist _
  · rcases said with said | said <;> rw [said] <;> exact List.Sublist.refl _

/-- Without a packet nothing is accepted. -/
theorem quiet (Ts : PacketTypes) (ring : DedupRingBuffer) :
    Keeps (fun _ : Act Ts => True) (fun _ => False) (fun _ => True)
    (fun s h _ => marks h = [] ∧ s.session.seenRequests = ring) where
  closed _ _ _ := trivial
  act s h _ a _ q _ := by
    obtain ⟨silent, same⟩ := act_screens s a
    rw [marks_append, silent, same, List.append_nil]
    exact q
  packet _ _ _ _ _ none := none.elim
  handOut s h now q := by
    rw [marks_append]
    constructor
    · rw [q.1]
      cases (s.session.nextOutbound now).2 <;> rfl
    · exact (ReliableSession.step_device (o := .nextOutbound now) rfl).2.trans q.2
  enqueue s h e _ q := by
    constructor
    · rw [marks_append, q.1]
      exact marks_transmit _ _ _ fun _ => rfl
    · exact q.2
  pollLoop _ _ _ _ q := q
  error s h _ txId q := by
    rw [marks_append, q.1]
    exact ⟨rfl, q.2⟩
  retransmitted s h todo q := by
    rw [marks_append, q.1, marks, List.filterMap_map]
    refine ⟨?_, q.2⟩
    rw [List.nil_append, List.filterMap_eq_nil_iff]
    intro e _
    rfl
  drainTx s h sendFrame q := by
    constructor
    · rw [marks_append, q.1]
      show marks ((s.tx.drainTx sendFrame).2.map StackEvent.accepted).toList = []
      cases (s.tx.drainTx sendFrame).2 <;> rfl
    · exact q.2

/-- What `invoke` says of a reliable request, and of others. -/
theorem marks_invoke (s : ProtocolStack Ts) (cmd : UInt16) (txId : TransactionId) (data : List UInt8) :
    marks (s.invoke cmd txId data) = [] ∨
      (cmd < 0x6300 ∧ txId ≠ 0) ∧ marks (s.invoke cmd txId data) = [.handled (cmd, txId)] := by
  unfold ProtocolStack.invoke
  split
  · by_cases reliable : cmd < 0x6300 ∧ txId ≠ 0
    · refine .inr ⟨reliable, ?_⟩
      simp [marks, StackEvent.mark?, reliable]
    · left
      simp only [marks, List.filterMap_cons, StackEvent.mark?, reliable, if_false, List.filterMap_nil]
  · exact .inl rfl

theorem handleRequestPacket_screens (s : ProtocolStack Ts) (cmd : UInt16) (data : List UInt8)
    (request : isRequestCmd cmd = true) :
    Screens s (s.handleRequestPacket cmd data).1 (s.handleRequestPacket cmd data).2 (requestKey Ts ⟨cmd, data⟩) := by
  unfold ProtocolStack.handleRequestPacket requestKey
  dsimp only
  generalize extractTxIdFromRaw Ts cmd data = txId
  have direct : ¬ (cmd < 0x6300 ∧ txId ≠ 0) → ∀ key, Screens s s (s.invoke cmd txId data) key := by
    intro unreliable key
    rcases marks_invoke s cmd txId data with none | ⟨reliable, -⟩
    · exact .inl ⟨none, rfl⟩
    · exact absurd reliable unreliable
  by_cases region : cmd < 0x6300
  swap
  · rw [if_pos region]
    exact direct (fun reliable => region reliable.1) _
  rw [if_neg (not_not.mpr region)]
  by_cases zero : txId = 0
  · rw [if_pos zero]
    split
    · exact direct (fun reliable => reliable.2 zero) _
    · exact .inl ⟨rfl, rfl⟩
  have key : (if isRequestCmd cmd = true ∧ cmd < 0x6300 ∧ txId ≠ 0 then some (cmd, txId) else none) = some
      (cmd, txId) :=
    if_pos ⟨request, region, zero⟩
  rw [if_neg zero, key]
  have ack := @marks_transmit Ts { s with session := (s.session.onRequest cmd txId).1 }
      (s.tx.enqueuePacket (ackOf Ts cmd txId) true)
    (.enqueued (ackOf Ts cmd txId).content) fun _ => rfl
  generalize acked : ProtocolStack.transmit { s with session := (s.session.onRequest cmd txId).1 }
    (s.tx.enqueuePacket (ackOf Ts cmd txId) true) (.enqueued (ackOf Ts cmd txId).content) = r at ack
  have session : r.1.session = (s.session.onRequest cmd txId).1 := by
    rw [← acked]
    rfl
  by_cases seen : composeDedupKey cmd txId ∈ s.session.seenRequests.ids
  · have result : s.session.onRequest cmd txId =
      (s.session, ⟨true, true, s.session.completedCache.find? (composeDedupKey cmd txId)⟩) := by
      simp only [ReliableSession.onRequest, IdRingBuffer.testAndInsert_seen seen]
    rw [result] at session ⊢
    dsimp only
    have quiet : marks (.session (.requested cmd txId
        ⟨true, true, s.session.completedCache.find? (composeDedupKey cmd txId)⟩) ::
        .offered (ackOf Ts cmd txId).content :: r.2) = [] := ack
    have ring : r.1.session.seenRequests = s.session.seenRequests := by rw [session]
    rw [if_pos rfl]
    left
    split
    · split
      · rw [marks_append, quiet, marks_transmit _ _ _ fun _ => rfl]
        exact ⟨rfl, ring⟩
      · exact ⟨quiet, ring⟩
    · exact ⟨quiet, ring⟩
  · have new := IdRingBuffer.testAndInsert_new seen
    generalize inserted : (s.session.seenRequests.testAndInsert (composeDedupKey cmd txId)).1 = ring at new
    have result : s.session.onRequest cmd txId = ({ s.session with seenRequests := ring }, ⟨true, false, none⟩) := by
      simp only [ReliableSession.onRequest, new]
    rw [result] at session ⊢
    dsimp only
    rw [if_neg (by simp)]
    refine .inr ⟨(cmd, txId), rfl, seen, by rw [session, ← inserted]; rfl, ?_⟩
    have accepted : marks (.session (.requested cmd txId ⟨true, false, none⟩) :: .offered
        (ackOf Ts cmd txId).content :: r.2) =
        .accepted (cmd, txId) :: marks r.2 := rfl
    rw [marks_append, accepted, ack]
    rcases marks_invoke s cmd txId data with none | ⟨-, handled⟩
    · rw [none]
      exact .inl rfl
    · rw [handled]
      exact .inr rfl

theorem handlePacketInternal_screens (s : ProtocolStack Ts) (now : Time) (cmd : UInt16) (data : List UInt8) :
    Screens s (s.handlePacketInternal now cmd data).1 (s.handlePacketInternal now cmd data).2
      (requestKey Ts ⟨cmd, data⟩) := by
  unfold ProtocolStack.handlePacketInternal
  split
  · unfold ProtocolStack.handleAckPacket
    split
    · exact .inl ⟨rfl, rfl⟩
    · exact .inl ⟨rfl, (ReliableSession.step_device (o := .onAck now (ackPacket.getTxId data)) rfl).2⟩
  split
  · rename_i request
    exact handleRequestPacket_screens s cmd data request
  · unfold ProtocolStack.handleResponsePacket
    dsimp only
    split
    · exact .inl ⟨rfl, rfl⟩
    · refine .inl ⟨?_, (ReliableSession.step_device (o := .onResponse cmd (extractTxIdFromRaw Ts cmd data) data) rfl).2⟩
      apply marks_session
      intro _ _ _ logged
      obtain ⟨_, -, -, same⟩ := ReliableSession.mem_onResponse logged
      cases same

/-- **What an operation accepts** is the request it receives, and only if it is not in the ring. -/
theorem step_screens (s : ProtocolStack Ts) (o : StackOp Ts) :
    Screens s ((stack Ts).step s o).1 ((stack Ts).step s o).2 o.requestKey := by
  have without : o.Meets (fun _ => True) (fun _ => False) →
      Screens s ((stack Ts).step s o).1 ((stack Ts).step s o).2 o.requestKey := fun none =>
    .inl ((quiet Ts s.session.seenRequests).step o none (h := []) ⟨rfl, rfl⟩ trivial)
  cases o with
  | act a => exact without trivial
  | packet now cmd data => exact handlePacketInternal_screens s now cmd data
  | sessionOutbound clock => exact without trivial
  | sessionRetries now clock callbacks => exact without fun _ _ _ => trivial
  | drainTx sendFrame => exact without trivial

end Screen

/-! ### Runs -/

/-- The ring holds the last accepted keys, and what is handled has been accepted. -/
structure Deduplicates {Ts : PacketTypes} (s : ProtocolStack Ts) (log : List StackEvent) : Prop where
  remembers : s.session.seenRequests.Remembers ((acceptedKeys (marks log)).map dedupKey)
  preceded : Preceded (marks log)

namespace Deduplicates

variable {Ts : PacketTypes} {s s' : ProtocolStack Ts} {h : List StackEvent}

theorem init (Ts : PacketTypes) (config : Config) : Deduplicates (.init Ts config) [] where
  remembers := .init 6
  preceded pre k post split := by cases pre <;> cases split

theorem screen (d : Deduplicates s h) {ev : List StackEvent} {key : Option RequestKey} (screens : Screens s s' ev key) :
    Deduplicates s' (h ++ ev) := by
  rcases screens with ⟨silent, ring⟩ | ⟨k, -, new, ring, said⟩
  · constructor <;> rw [marks_append, silent, List.append_nil]
    · rw [ring]
      exact d.remembers
    · exact d.preceded
  · have accepted := d.preceded.accept k
    constructor
    · have keys : acceptedKeys (marks (h ++ ev)) = acceptedKeys (marks h) ++ [k] := by
        rw [marks_append, acceptedKeys_append]
        rcases said with said | said <;> rw [said] <;> rfl
      rw [keys, ring, List.map_append]
      exact (d.remembers.insert new).2
    · rw [marks_append]
      rcases said with said | said <;> rw [said]
      · exact accepted
      · have handled := accepted.handle (k := k) (by rw [List.getLast?_concat])
        rwa [List.append_assoc] at handled

/-- Every run deduplicates its requests. -/
theorem run (Ts : PacketTypes) (config : Config) (ops : List (StackOp Ts)) :
    Deduplicates ((stack Ts).exec (.init Ts config) ops) ((stack Ts).trace (.init Ts config) ops) :=
  (stack Ts).run_invariant_always (Deduplicates.init Ts config) (fun s _ o d => d.screen (step_screens s o)) ops

end Deduplicates

/-- **A key handled twice**: at least 64 other keys are accepted in between, and the second
acceptance of the key comes after them. -/
theorem Deduplicates.handled_twice {Ts : PacketTypes} {s : ProtocolStack Ts} {log : List StackEvent}
    (d : Deduplicates s log)
    {k : RequestKey} {a mid post : List Mark} (split : marks log = a ++ .handled k :: (mid ++ .handled k :: post)) :
    ∃ a' mid', a = a' ++ [.accepted k] ∧ mid = mid' ++ [.accepted k] ∧ 64 ≤ (acceptedKeys mid').length ∧
      ((acceptedKeys mid').take 64).Nodup ∧ k ∉ (acceptedKeys mid').take 64 := by
  have first := d.preceded a k _ split
  have second := d.preceded (a ++ .handled k :: mid) k post (by rw [split]; simp)
  obtain ⟨a', rfl⟩ := List.getLast?_eq_some_iff.mp first
  obtain ⟨mid', rfl⟩ : ∃ mid', mid = mid' ++ [.accepted k] := by
    rcases List.eq_nil_or_concat mid with rfl | ⟨mid', last, rfl⟩
    · rw [List.getLast?_concat] at second
      cases second
    · rw [List.concat_eq_append] at second ⊢
      rw [← List.cons_append, ← List.append_assoc, List.getLast?_concat] at second
      rw [Option.some.inj second]
      exact ⟨mid', rfl⟩
  have keys : acceptedKeys (marks log) = acceptedKeys a' ++ k :: (acceptedKeys mid' ++ k :: acceptedKeys post) := by
    have handled : ∀ ms, acceptedKeys (.handled k :: ms) = acceptedKeys ms := fun _ => rfl
    have accepted : acceptedKeys [.accepted k] = [k] := rfl
    rw [split, acceptedKeys_append, acceptedKeys_append, handled, acceptedKeys_append, acceptedKeys_append,
      handled, accepted]
    simp
  have dedup := d.remembers.dedup
  rw [keys, List.map_append, List.map_cons, List.map_append, List.map_cons] at dedup
  obtain ⟨long, distinct, other⟩ := dedup.repeat_needs_window
  rw [List.length_map] at long
  rw [← List.map_take] at distinct other
  exact ⟨a', mid', rfl, rfl, long, distinct.of_map _, fun member => other (List.mem_map_of_mem member)⟩

/-- **No early repetition.** When the handler of a reliable request is invoked a second time for
the same command and transaction, at least 64 pairwise distinct other keys were accepted as
new in between. -/
theorem repeat_needs_64 (Ts : PacketTypes) (config : Config) (ops : List (StackOp Ts)) {k : RequestKey}
    {a mid post : List Mark}
    (split : marks ((stack Ts).trace (.init Ts config) ops) = a ++ .handled k :: (mid ++ .handled k :: post)) :
    ∃ keys : List RequestKey, keys.length = 64 ∧ keys.Nodup ∧ k ∉ keys ∧ ∀ j ∈ keys, .accepted j ∈ mid := by
  obtain ⟨-, mid', -, rfl, long, distinct, other⟩ := (Deduplicates.run Ts config ops).handled_twice split
  refine ⟨(acceptedKeys mid').take 64, by rw [List.length_take]; omega, distinct, other, fun j member => ?_⟩
  obtain ⟨mark, marked, same⟩ := List.mem_filterMap.mp (List.mem_of_mem_take member)
  apply List.mem_append_left
  cases mark with
  | accepted j' =>
    cases same
    exact marked
  | handled j' => cases same

end FloridUsb.Stack
