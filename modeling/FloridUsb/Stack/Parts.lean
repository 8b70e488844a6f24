import FloridUsb.Stack.Protocol

/-!
# The parts of an operation

Calls of the application and received packets, taken apart once: what they do to a stack is a
sequence of session operations, packets enqueued, cached responses replayed, and events that
change nothing. An invariant that each of these keeps is kept by every run (`KeepsParts.whole`).
-/

namespace FloridUsb.Stack
set_option autoImplicit false

open Lib Rpl Session

/-- Events that say what is offered or handled, and change nothing. -/
def StackEvent.isNote : StackEvent → Bool
  | .offered _ | .handler _ _ _ _ => true
  | .session _ | .enqueued _ _ | .replayed _ _ _ | .accepted _ => false

section Parts

variable {Ts : PacketTypes}

/-- A packet that is enqueued where calls are of a kind `P`: that of a call, or an ACK. -/
def Sendable (P : Act Ts → Prop) (packet : Packet Ts) : Prop :=
  P (.broadcast packet) ∨ (∃ cmd txId, P (.sendResponseAndCache cmd txId packet)) ∨
    ∃ cmd txId, packet = ackOf Ts cmd txId

/-- What the smallest parts of the operations keep, for calls of a kind `P`, a log that satisfies
`G`, and session entries that meet `E` where they are enqueued. -/
structure KeepsParts (P : Act Ts → Prop) (G : List StackEvent → Prop) (E : ProtocolStack Ts → RetransmitEntry → Prop)
    (I : ProtocolStack Ts → List StackEvent → List (TransactionId × Bool) → List RetransmitEntry → Prop) : Prop where
  closed : ∀ h ev, G (h ++ ev) → G h
  note : ∀ s h due todo e, e.isNote = true → I s h due todo → I s (h ++ [e]) due todo
  handlers : ∀ s h due todo handlers, I s h due todo → I { s with handlers := handlers } h due todo
  setNextTxId : ∀ s h due todo t, I s h due todo → I { s with session := s.session.setNextTxId t } h due todo
  send : ∀ s h due todo now args, P (.send now args) → I s h due todo → G (h ++ (s.send now args).2) →
    I (s.send now args).1 (h ++ (s.send now args).2) due todo
  enqueuePacket : ∀ s h due todo (packet : Packet Ts) priority, Sendable P packet → .offered packet.content ∈ h →
    I s h due todo →
    I (s.transmit (s.tx.enqueuePacket packet priority) (.enqueued packet.content)).1
      (h ++ (s.transmit (s.tx.enqueuePacket packet priority) (.enqueued packet.content)).2) due todo
  cache : ∀ s h due todo cmd txId (response : Packet Ts) entry seq, P (.sendResponseAndCache cmd txId response) →
    response.traits.frameSize ≤ MAX_FRAME_SIZE → .offered response.content ∈ h → .enqueued response.content entry ∈ h →
    entry.frame = frameBytes seq response.traits.cmd response.bytes → I s h due todo →
    I { s with session := s.session.cacheResponse cmd txId response.traits.cmd entry.frame } h due todo
  onAck : ∀ s h now txId, I s h [] [] → I { s with session := s.session.onAck now txId } h [] []
  onResponse : ∀ s h cmd txId data, I s h [] [] → I { s with session := (s.session.onResponse cmd txId data).1 }
    (h ++ (s.session.onResponse cmd txId data).2.map .session) [] []
  onRequest : ∀ s h cmd txId, I s h [] [] → I { s with session := (s.session.onRequest cmd txId).1 }
    (h ++ [.session (.requested cmd txId (s.session.onRequest cmd txId).2)]) [] []
  replay : ∀ s h cmd txId cached, s.session.completedCache.find? (composeDedupKey cmd txId) = some cached →
    I s h [] [] →
    I (s.transmit (s.tx.enqueuePrebuiltFrame cached.responseBytes true) (.replayed cmd txId)).1
      (h ++ (s.transmit (s.tx.enqueuePrebuiltFrame cached.responseBytes true) (.replayed cmd txId)).2) [] []
  handOut : ∀ s h now, I s h [] [] → I { s with session := (s.session.nextOutbound now).1 }
    (h ++ ((s.session.nextOutbound now).2.map fun e => .session (.handedOut e)).toList) []
      (s.session.nextOutbound now).2.toList
  enqueue : ∀ s h e todo, E s e → I s h [] (e :: todo) → I (s.enqueueEntry e).1 (h ++ (s.enqueueEntry e).2) [] todo
  pollLoop : ∀ s h now clock, I s h [] [] → I { s with session := (s.session.pollLoop now clock).1 } h
    (s.session.pollLoop now clock).2.callbacks (s.session.pollLoop now clock).2.retries
  error : ∀ s h txId due todo, I s h ((txId, true) :: due) todo → I s (h ++ [.session (.error txId .timeout)]) due todo
  skip : ∀ s h txId due todo, I s h ((txId, false) :: due) todo → I s h due todo
  retransmitted : ∀ s h todo, I s h [] todo → I s (h ++ todo.map fun e => .session (.retransmitted e)) [] todo
  drainTx : ∀ s h sendFrame, I s h [] [] → I (s.drainTx sendFrame).1 (h ++ (s.drainTx sendFrame).2) [] []

/-- A response is enqueued like any packet, and then cached if there was a place for it. -/
theorem sendResponseAndCache_parts (s : ProtocolStack Ts) (cmd : UInt16) (txId : TransactionId) (response : Packet Ts) :
    let sent := s.transmit (s.tx.enqueuePacket response true) (.enqueued response.content)
    (s.sendResponseAndCache cmd txId response).2 = .offered response.content :: sent.2 ∧
    ((s.sendResponseAndCache cmd txId response).1 = sent.1 ∨
      ∃ entry, sent.2 = [.enqueued response.content entry] ∧ response.traits.frameSize ≤ MAX_FRAME_SIZE ∧
        entry.frame = frameBytes s.tx.serializer.sequence response.traits.cmd response.bytes ∧
        (s.sendResponseAndCache cmd txId response).1 =
          { sent.1 with session := sent.1.session.cacheResponse cmd txId response.traits.cmd entry.frame }) := by
  intro sent
  unfold ProtocolStack.sendResponseAndCache
  cases done : serializePacketToFrame s.tx.serializer response with
  | none =>
    have same : s.tx.enqueuePacket response true = (s.tx, none) := by
      rw [TxPath.enqueuePacket, done]
    have untouched : sent = (s, []) := by
      show s.transmit (s.tx.enqueuePacket response true) _ = _
      rw [same]
      rfl
    rw [untouched]
    exact ⟨rfl, .inl rfl⟩
  | some result =>
    obtain ⟨frame, serializer⟩ := result
    obtain ⟨fits, made, -⟩ := serializePacketToFrame_eq_some done
    have same : s.tx.enqueuePacket response true =
        TxPath.enqueuePrebuiltFrame { s.tx with serializer := serializer } frame true := by
      rw [TxPath.enqueuePacket, done]
    have whole : sent = s.transmit (TxPath.enqueuePrebuiltFrame { s.tx with serializer := serializer } frame true)
        (.enqueued response.content) := congrArg (fun r => s.transmit r _) same
    have pushed : ∀ entry, (TxPath.enqueuePrebuiltFrame { s.tx with serializer := serializer } frame true).2 =
        some entry →
        entry.frame = frame := fun entry pushed => TxPath.enqueuePrebuiltFrame_frame pushed
    rw [whole]
    dsimp only
    generalize TxPath.enqueuePrebuiltFrame { s.tx with serializer := serializer } frame true = r at pushed
    obtain ⟨tx, _ | entry⟩ := r
    · exact ⟨rfl, .inl rfl⟩
    · have here : entry.frame = frame := pushed entry rfl
      refine ⟨rfl, .inr ⟨entry, rfl, fits, here.trans made, ?_⟩⟩
      rw [here]
      rfl

namespace KeepsParts

variable {P : Act Ts → Prop} {G : List StackEvent → Prop} {E : ProtocolStack Ts → RetransmitEntry → Prop}
  {I : ProtocolStack Ts → List StackEvent → List (TransactionId × Bool) → List RetransmitEntry → Prop}
  {s : ProtocolStack Ts} {h : List StackEvent} {due : List (TransactionId × Bool)} {todo : List RetransmitEntry}

/-- A packet is offered and enqueued. -/
theorem offer (keeps : KeepsParts P G E I) (packet : Packet Ts) (priority : Bool) (sendable : Sendable P packet)
    (i : I s h due todo) :
    I (s.transmit (s.tx.enqueuePacket packet priority) (.enqueued packet.content)).1
      (h ++ (.offered packet.content ::
        (s.transmit (s.tx.enqueuePacket packet priority) (.enqueued packet.content)).2)) due todo := by
  rw [List.append_cons]
  exact keeps.enqueuePacket s _ due todo packet priority sendable (by simp) (keeps.note s h due todo _ rfl i)

theorem act (keeps : KeepsParts P G E I) (a : Act Ts) (kind : P a) (i : I s h due todo) (good : G (h ++ (s.act a).2)) :
    I (s.act a).1 (h ++ (s.act a).2) due todo := by
  cases a with
  | registerHandler cmd handler =>
    show I _ (h ++ []) due todo
    rw [List.append_nil]
    exact keeps.handlers s h due todo _ i
  | setNextTxId t =>
    show I _ (h ++ []) due todo
    rw [List.append_nil]
    exact keeps.setNextTxId s h due todo t i
  | send now args => exact keeps.send s h due todo now args kind i good
  | sendResponseAndCache cmd txId response =>
    have sent := keeps.offer response true (.inr (.inl ⟨cmd, txId, kind⟩)) i
    obtain ⟨log, cases⟩ := sendResponseAndCache_parts s cmd txId response
    show I (s.sendResponseAndCache cmd txId response).1 (h ++ (s.sendResponseAndCache cmd txId response).2) due todo
    rw [log]
    rcases cases with same | ⟨entry, pushed, fits, frame, same⟩ <;> rw [same]
    · exact sent
    · apply keeps.cache _ _ due todo cmd txId response entry _ kind fits (by simp) _ frame sent
      rw [pushed]
      simp
  | broadcast packet => exact keeps.offer packet false (.inl kind) i

theorem invoke (keeps : KeepsParts P G E I) (t : ProtocolStack Ts) (cmd : UInt16) (txId : TransactionId)
    (data : List UInt8) (i : I s h due todo) : I s (h ++ t.invoke cmd txId data) due todo := by
  unfold ProtocolStack.invoke
  split
  · exact keeps.note s h due todo _ rfl i
  · rwa [List.append_nil]

theorem handleRequestPacket (keeps : KeepsParts P G E I) (cmd : UInt16) (data : List UInt8) (i : I s h [] []) :
    I (s.handleRequestPacket cmd data).1 (h ++ (s.handleRequestPacket cmd data).2) [] [] := by
  have nothing : I s (h ++ []) [] [] := by rwa [List.append_nil]
  unfold ProtocolStack.handleRequestPacket
  dsimp only
  generalize extractTxIdFromRaw Ts cmd data = txId
  split
  · exact keeps.invoke s cmd txId data i
  split
  · split
    · exact keeps.invoke s cmd txId data i
    · exact nothing
  have acked := keeps.offer (ackOf Ts cmd txId) true (.inr (.inr ⟨cmd, txId, rfl⟩)) (keeps.onRequest s h cmd txId i)
  rw [List.append_assoc, List.singleton_append] at acked
  split
  · split
    · rename_i cached found
      split
      · rw [← List.append_assoc]
        apply keeps.replay _ _ cmd txId cached _ acked
        have there := ReliableSession.onRequest_cached found
        show (s.session.onRequest cmd txId).1.completedCache.find? _ = _
        rw [s.session.onRequest_eq cmd txId]
        exact there
      · exact acked
    · exact acked
  · rw [← List.append_assoc]
    exact keeps.invoke s cmd txId data acked

theorem handlePacketInternal (keeps : KeepsParts P G E I) (now : Time) (cmd : UInt16) (data : List UInt8)
    (i : I s h [] []) :
    I (s.handlePacketInternal now cmd data).1 (h ++ (s.handlePacketInternal now cmd data).2) [] [] := by
  have nothing : I s (h ++ []) [] [] := by rwa [List.append_nil]
  unfold ProtocolStack.handlePacketInternal
  split
  · unfold ProtocolStack.handleAckPacket
    split
    · exact nothing
    · rw [List.append_nil]
      exact keeps.onAck s h now _ i
  split
  · exact keeps.handleRequestPacket cmd data i
  · unfold ProtocolStack.handleResponsePacket
    dsimp only
    split
    · exact nothing
    · exact keeps.onResponse s h cmd _ data i

/-- What the parts keep, the operations keep. -/
theorem whole (keeps : KeepsParts P G E I) : KeepsDue P (fun _ => True) G E I where
  closed := keeps.closed
  act _ _ _ _ a kind i good := keeps.act a kind i good
  packet _ _ now cmd data _ i := keeps.handlePacketInternal now cmd data i
  handOut := keeps.handOut
  enqueue := keeps.enqueue
  pollLoop := keeps.pollLoop
  error := keeps.error
  skip := keeps.skip
  retransmitted := keeps.retransmitted
  drainTx := keeps.drainTx

end KeepsParts

end Parts

end FloridUsb.Stack
