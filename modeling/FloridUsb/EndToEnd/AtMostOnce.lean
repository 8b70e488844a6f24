import FloridUsb.Stack.SendOrder

/-!
# At most once

A host stack sends to a device stack over a line that loses frames and repeats them, but never
reorders them. What the host receives, and when, is arbitrary: late, lost and repeated ACKs and
responses are all there.

With a window of one, the copies of a request, first sending and retries alike, reach the device
before those of the next. So nothing new is accepted between two copies, and the ring of the
device recognises every copy but the first.
-/

namespace FloridUsb.EndToEnd
set_option autoImplicit false

open Lib Rpl Session Stack

/-- A host stack, the frames on the way, and a device stack with the same packet types. -/
structure Line (Ts : PacketTypes) where
  host : ProtocolStack Ts
  wire : List (List UInt8) := []
  device : ProtocolStack Ts

inductive LineEvent where
  | host (e : StackEvent)
  | device (e : StackEvent)
deriving DecidableEq

inductive LineOp (Ts : PacketTypes) where
  /-- A step of the host, whose application broadcasts and answers no reliable requests. -/
  | host (o : {o : StackOp Ts // o.Meets Act.Plain fun _ => True})
  /-- A frame on the way is lost. -/
  | lose (n : Nat)
  /-- A frame on the way comes again before the next one. -/
  | again (n : Nat)
  /-- The first frame is read by the parser of the device. -/
  | deliver (now : Time)
  /-- A step of the device that brings it no reliable request. -/
  | device (o : {o : StackOp Ts // o.requestKey = none})

namespace Line

variable {Ts : PacketTypes}

def init (Ts : PacketTypes) (hostConfig deviceConfig : Config) : Line Ts where
  host := .init Ts hostConfig
  device := .init Ts deviceConfig

variable (l : Line Ts)

/-- A step of the host. The frames that `send_frame` takes go onto the wire. -/
def hostStep (o : StackOp Ts) : Line Ts × List LineEvent :=
  let r := (stack Ts).step l.host o
  ({ l with host := r.1, wire := l.wire ++ acceptedFrames r.2 }, r.2.map .host)

def deviceStep (o : StackOp Ts) : Line Ts × List LineEvent :=
  let r := (stack Ts).step l.device o
  ({ l with device := r.1 }, r.2.map .device)

/-- `handle_packet_internal` of the device, for the packet that the first frame carries. -/
def deliver (now : Time) : Line Ts × List LineEvent :=
  match l.wire with
  | [] => (l, [])
  | frame :: rest =>
    match (readFrame Ts frame).filter (·.known Ts) with
    | none => ({ l with wire := rest }, [])
    | some f => deviceStep { l with wire := rest } (.packet now f.cmd f.payload)

def step : LineOp Ts → Line Ts × List LineEvent
  | .host o => l.hostStep o
  | .lose n => ({ l with wire := l.wire.eraseIdx n }, [])
  | .again n => ({ l with wire := l.wire.take (n + 1) ++ l.wire.drop n }, [])
  | .deliver now => l.deliver now
  | .device o => l.deviceStep o

end Line

def line (Ts : PacketTypes) : Machine (Line Ts) (LineOp Ts) LineEvent where
  step := Line.step

def LineEvent.host? : LineEvent → Option StackEvent
  | .host e => some e
  | .device _ => none

def LineEvent.device? : LineEvent → Option StackEvent
  | .host _ => none
  | .device e => some e

/-- The log of the host. -/
def hostSide (log : List LineEvent) : List StackEvent := log.filterMap LineEvent.host?

/-- The log of the device. -/
def deviceSide (log : List LineEvent) : List StackEvent := log.filterMap LineEvent.device?

section Sides

variable (a b : List LineEvent) (ev : List StackEvent)

@[simp] theorem hostSide_append : hostSide (a ++ b) = hostSide a ++ hostSide b := List.filterMap_append

@[simp] theorem deviceSide_append : deviceSide (a ++ b) = deviceSide a ++ deviceSide b := List.filterMap_append

@[simp] theorem hostSide_host : hostSide (ev.map .host) = ev := by
  rw [hostSide, List.filterMap_map]
  exact List.filterMap_some

@[simp] theorem hostSide_device : hostSide (ev.map .device) = [] := by
  rw [hostSide, List.filterMap_map, List.filterMap_eq_nil_iff]
  exact fun _ _ => rfl

@[simp] theorem deviceSide_host : deviceSide (ev.map .host) = [] := by
  rw [deviceSide, List.filterMap_map, List.filterMap_eq_nil_iff]
  exact fun _ _ => rfl

@[simp] theorem deviceSide_device : deviceSide (ev.map .device) = ev := by
  rw [deviceSide, List.filterMap_map]
  exact List.filterMap_some

end Sides

/-! ### The order of arrival -/

/-- The requests the device has accepted, and then those on the way, are among those the host has
sent, in the order in which the host handed them out. -/
structure Ordered (Ts : PacketTypes) (l : Line Ts) (log : List LineEvent) : Prop where
  host : SendsInOrder Ts l.host (hostSide log) []
  device : Deduplicates l.device (deviceSide log)
  sent : acceptedKeys (marks (deviceSide log)) ++ frameKeys Ts l.wire ⊆ frameKeys Ts (acceptedFrames (hostSide log))
  order : InOrder (handedKeys (sessionLog (hostSide log)))
    (acceptedKeys (marks (deviceSide log)) ++ frameKeys Ts l.wire)

namespace Ordered

variable {Ts : PacketTypes} {l : Line Ts} {h : List LineEvent}

theorem init (Ts : PacketTypes) {hostConfig : Config} (one : hostConfig.windowSize ≤ 1) (deviceConfig : Config) :
    Ordered Ts (.init Ts hostConfig deviceConfig) [] where
  host := .init Ts one
  device := .init Ts deviceConfig
  sent := List.nil_subset _
  order := .nil _

/-- The host sends more. -/
theorem hostStep (i : Ordered Ts l h) (o : StackOp Ts) (plain : o.Meets Act.Plain fun _ => True)
    (once : RegisteredOnce (sessionLog (hostSide (h ++ (l.hostStep o).2)))) :
    Ordered Ts (l.hostStep o).1 (h ++ (l.hostStep o).2) := by
  have events : hostSide (h ++ (l.hostStep o).2) = hostSide h ++ ((stack Ts).step l.host o).2 := by
    rw [hostSide_append]
    exact congrArg _ (hostSide_host _)
  have silent : deviceSide (h ++ (l.hostStep o).2) = deviceSide h := by
    rw [deviceSide_append]
    exact (congrArg _ (deviceSide_host _)).trans (List.append_nil _)
  have wire : frameKeys Ts (l.hostStep o).1.wire =
      frameKeys Ts l.wire ++ frameKeys Ts (acceptedFrames ((stack Ts).step l.host o).2) := frameKeys_append Ts _ _
  rw [events] at once
  have host := (SendsInOrder.keeps Ts).whole.step o plain (o.offers_true _) i.host once
  -- what has been sent is what the queue has given up
  have sent : InOrder (handedKeys (sessionLog (hostSide (h ++ (l.hostStep o).2))))
      (frameKeys Ts (acceptedFrames (hostSide h)) ++ frameKeys Ts (acceptedFrames ((stack Ts).step l.host o).2)) := by
    rw [events]
    apply host.order.sublist
    rw [frameKeys_append, acceptedFrames_append, frameKeys_append]
    exact List.sublist_append_left _ _
  constructor
  · rw [events]
    exact host
  · rw [silent]
    exact i.device
  · rw [silent, wire, events, acceptedFrames_append, frameKeys_append, ← List.append_assoc]
    exact List.append_subset.mpr ⟨fun k member => List.mem_append_left _ (i.sent member), List.subset_append_right _ _⟩
  · rw [silent, wire, ← List.append_assoc]
    rw [events, sessionLog_append, handedKeys_append] at sent ⊢
    exact i.order.feed i.sent sent

/-- Frames are lost. -/
theorem lose (i : Ordered Ts l h) {wire : List (List UInt8)} (lost : wire.Sublist l.wire) :
    Ordered Ts { l with wire := wire } h := by
  have fewer := (List.Sublist.refl (acceptedKeys (marks (deviceSide h)))).append (lost.filterMap (frameKey Ts))
  constructor
  · exact i.host
  · exact i.device
  · exact List.Subset.trans fewer.subset i.sent
  · exact i.order.sublist fewer

/-- A frame comes twice. -/
theorem again (i : Ordered Ts l h) (n : Nat) :
    Ordered Ts { l with wire := l.wire.take (n + 1) ++ l.wire.drop n } h := by
  by_cases there : n < l.wire.length
  swap
  · have same : l.wire.take (n + 1) ++ l.wire.drop n = l.wire := by
      rw [List.take_of_length_le (by omega), List.drop_of_length_le (by omega), List.append_nil]
    rw [same]
    exact i
  have front : l.wire.take (n + 1) = l.wire.take n ++ [l.wire[n]] := (List.take_append_getElem there).symm
  have back : l.wire.drop n = l.wire[n] :: l.wire.drop (n + 1) := List.drop_eq_getElem_cons there
  have split : l.wire = l.wire.take n ++ l.wire[n] :: l.wire.drop (n + 1) := by rw [← back, List.take_append_drop]
  have sent := i.sent
  have order := i.order
  rw [split] at sent order
  rw [front, back, List.append_assoc, List.singleton_append]
  generalize l.wire.take n = a, l.wire[n] = x, l.wire.drop (n + 1) = b at sent order
  simp only [frameKeys, List.filterMap_append, List.filterMap_cons] at sent order
  constructor
  · exact i.host
  · exact i.device
  · simp only [frameKeys, List.filterMap_append, List.filterMap_cons]
    cases key : frameKey Ts x with
    | none => simpa only [key] using sent
    | some k =>
      simp only [key] at sent ⊢
      intro j member
      apply sent
      simpa using member
  · simp only [frameKeys, List.filterMap_append, List.filterMap_cons]
    cases key : frameKey Ts x with
    | none => simpa only [key] using order
    | some k =>
      simp only [key] at order ⊢
      rw [← List.append_assoc] at order ⊢
      exact order.repeated

/-- The device takes a step, and the request it receives, if any, is the first on the wire. -/
theorem take (i : Ordered Ts l h) {rest : List (List UInt8)} (o : StackOp Ts)
    (first : (o.requestKey.toList ++ frameKeys Ts rest).Sublist (frameKeys Ts l.wire)) :
    Ordered Ts (Line.deviceStep { l with wire := rest } o).1 (h ++ (Line.deviceStep { l with wire := rest } o).2) := by
  have events : deviceSide (h ++ (Line.deviceStep { l with wire := rest } o).2) =
      deviceSide h ++ ((stack Ts).step l.device o).2 := by
    rw [deviceSide_append]
    exact congrArg _ (deviceSide_device _)
  have silent : hostSide (h ++ (Line.deviceStep { l with wire := rest } o).2) = hostSide h := by
    rw [hostSide_append]
    exact (congrArg _ (hostSide_device _)).trans (List.append_nil _)
  have screens := step_screens l.device o
  have arrived : (acceptedKeys (marks (deviceSide h ++ ((stack Ts).step l.device o).2)) ++ frameKeys Ts rest).Sublist
      (acceptedKeys (marks (deviceSide h)) ++ frameKeys Ts l.wire) := by
    rw [marks_append, acceptedKeys_append, List.append_assoc]
    apply (List.Sublist.refl _).append
    exact (screens.acceptedKeys_sublist.append (List.Sublist.refl _)).trans first
  constructor
  · rw [silent]
    exact i.host
  · rw [events]
    exact i.device.screen screens
  · rw [silent, events]
    exact List.Subset.trans arrived.subset i.sent
  · rw [silent, events]
    exact i.order.sublist arrived

theorem deliver (i : Ordered Ts l h) (now : Time) : Ordered Ts (l.deliver now).1 (h ++ (l.deliver now).2) := by
  unfold Line.deliver
  split
  · rwa [List.append_nil]
  · rename_i frame rest wire
    split
    · rw [List.append_nil]
      apply i.lose
      rw [wire]
      exact List.sublist_cons_self _ _
    · rename_i f read
      have key : frameKey Ts frame = requestKey Ts f := by
        rw [frameKey, (Option.filter_eq_some_iff.mp read).1]
        rfl
      apply i.take
      rw [wire, frameKeys, frameKeys, List.filterMap_cons, key]
      show ((requestKey Ts f).toList ++ _).Sublist _
      cases requestKey Ts f <;> exact List.Sublist.refl _

/-- Every operation keeps the order. -/
theorem step (i : Ordered Ts l h) (o : LineOp Ts)
    (once : RegisteredOnce (sessionLog (hostSide (h ++ ((line Ts).step l o).2)))) :
    Ordered Ts ((line Ts).step l o).1 (h ++ ((line Ts).step l o).2) := by
  cases o with
  | host o => exact i.hostStep o.1 o.2 once
  | lose n =>
    show Ordered Ts _ (h ++ [])
    rw [List.append_nil]
    exact i.lose (List.eraseIdx_sublist _ _)
  | again n =>
    show Ordered Ts _ (h ++ [])
    rw [List.append_nil]
    exact i.again n
  | deliver now => exact i.deliver now
  | device o =>
    apply i.take
    rw [o.2]
    exact List.Sublist.refl _

end Ordered

/-- What is accepted in order is handled once: the ring accepts a key again only after others. -/
theorem handled_once {Ts : PacketTypes} {s : ProtocolStack Ts} {log : List StackEvent} (d : Deduplicates s log)
    {order : List RequestKey} (o : InOrder order (acceptedKeys (marks log))) : (handledKeys (marks log)).Nodup := by
  apply handledKeys_nodup
  intro k a mid post split
  obtain ⟨a', mid', rfl, rfl, long, -, other⟩ := d.handled_twice split
  obtain ⟨j, later, keys⟩ : ∃ j later, acceptedKeys mid' = j :: later :=
    List.exists_cons_of_length_pos (by omega)
  rw [keys] at other
  have back : [k, j, k].Sublist (acceptedKeys (marks log)) := by
    have accepted : acceptedKeys [.accepted k] = [k] := rfl
    have handled : ∀ ms, acceptedKeys (.handled k :: ms) = acceptedKeys ms := fun _ => rfl
    rw [split]
    simp only [acceptedKeys_append, accepted, handled, keys]
    have front : [k].Sublist (acceptedKeys a' ++ [k]) := List.sublist_append_right _ _
    have between : [j, k].Sublist (j :: (later ++ [k])) := (List.sublist_append_right later [k]).cons_cons j
    exact front.append (between.trans (List.sublist_append_left _ _))
  rw [o.no_return back] at other
  exact other (by simp)

/-- **At most once.** In every run of a stack, between two invocations of the handler for one
reliable request, 64 pairwise distinct other requests are accepted as new. For a host with a
window of one that registers no transaction twice, behind a line that loses and repeats frames
but keeps their order, the device never invokes a handler twice for one request. -/
theorem at_most_once (Ts : PacketTypes) :
    (∀ (config : Config) (ops : List (StackOp Ts)) (k : RequestKey) (a mid post : List Mark),
      marks ((stack Ts).trace (.init Ts config) ops) = a ++ .handled k :: (mid ++ .handled k :: post) →
      ∃ keys : List RequestKey, keys.length = 64 ∧ keys.Nodup ∧ k ∉ keys ∧ ∀ j ∈ keys, .accepted j ∈ mid) ∧
    ∀ (hostConfig deviceConfig : Config) (ops : List (LineOp Ts)), hostConfig.windowSize = 1 →
      RegisteredOnce (sessionLog (hostSide ((line Ts).trace (.init Ts hostConfig deviceConfig) ops))) →
      (handledKeys (marks (deviceSide ((line Ts).trace (.init Ts hostConfig deviceConfig) ops)))).Nodup := by
  constructor
  · intro config ops k a mid post split
    exact repeat_needs_64 Ts config ops split
  · intro hostConfig deviceConfig ops one once
    have i : Ordered Ts ((line Ts).exec (.init Ts hostConfig deviceConfig) ops)
        ((line Ts).trace (.init Ts hostConfig deviceConfig) ops) := by
      apply (line Ts).run_invariant (G := fun log => RegisteredOnce (sessionLog (hostSide log)))
      · intro h ev good
        rw [hostSide_append, sessionLog_append] at good
        exact good.left
      · exact Ordered.init Ts (Nat.le_of_eq one) deviceConfig
      · exact fun _ _ o i once => i.step o once
      · exact once
    exact handled_once i.device (i.order.sublist (List.sublist_append_left _ _))

/-- A request handled again after 64 others; and one that is retried, and whose frames are repeated
and lost, handled once. -/
theorem at_most_once_setZero :
    let Ts := Arm.armPackets
    let key (n : Nat) : RequestKey := (0x6107, UInt32.ofNat n)
    let others := (List.range 64).map (· + 2)
    let mid : List Mark := others.flatMap (fun n => [.accepted (key n), .handled (key n)]) ++ [.accepted (key 1)]
    let request : Packet Ts := ⟨Arm.setZeroRequestPacket, [0, 0, 0, 0, 0xA5], by decide, rfl⟩
    let send : LineOp Ts := .host ⟨.act (.send 0 ⟨request, rfl, 0x6108, true, true, 10, 3⟩), trivial⟩
    let outbound : LineOp Ts := .host ⟨.sessionOutbound (fun _ => 0), trivial⟩
    let drain : LineOp Ts := .host ⟨.drainTx (some true), trivial⟩
    let retry : LineOp Ts := .host ⟨.sessionRetries 20 (fun _ => 20) (fun _ => []), fun _ _ member => by cases member⟩
    let serve : LineOp Ts := .device ⟨.act (.registerHandler 0x6107 (some 9)), rfl⟩
    let log := (line Ts).trace (.init Ts {} {}) [serve, send, outbound, drain, retry, drain, .again 0, .lose 2,
        .deliver 1, .deliver 2]
    (∃ keys : List RequestKey, keys.length = 64 ∧ keys.Nodup ∧ key 1 ∉ keys ∧ ∀ j ∈ keys, .accepted j ∈ mid) ∧
      (handledKeys (marks (deviceSide log))).Nodup ∧ handledKeys (marks (deviceSide log)) = [key 1] := by
  intro Ts key others mid request send outbound drain retry serve log
  let packet (n : Nat) : StackOp Ts := .packet 0 0x6107 (le32Bytes (UInt32.ofNat n) ++ [5])
  have twice : marks ((stack Ts).trace (.init Ts {})
      (.act (.registerHandler 0x6107 (some 9)) :: packet 1 :: (others.map packet ++ [packet 1]))) =
        [.accepted (key 1)] ++ .handled (key 1) :: (mid ++ .handled (key 1) :: []) := by decide +kernel
  have once : RegisteredOnce (sessionLog (hostSide log)) := by
    show (registeredTxs _).Nodup
    decide +kernel
  obtain ⟨repeats, atMostOnce⟩ := at_most_once Ts
  exact ⟨repeats {} _ (key 1) _ mid [] twice, atMostOnce {} {} _ rfl once, by decide +kernel⟩

end FloridUsb.EndToEnd
