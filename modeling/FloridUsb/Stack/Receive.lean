import FloridUsb.Lib.Machine
import FloridUsb.Rpl.ParserScan
import FloridUsb.Stack.IsrRing

/-!
# The receive path

The receive half of `ProtocolStack` (`ProtocolStack.hpp`): `isr_feed` fills the interrupt
ring, `drain_rx` moves the ring into the parser in chunks of at most 256 bytes, and a DMA
client writes into the parser's buffer itself. The rest of `run_one_cycle` touches neither.
An interrupt may come between two rounds of `drain_rx`, so a round is an operation of its own.

The run logs what was fed, what the parser was handed, what `drain_rx` lost by ignoring the
result of `push_data`, and the calls of `handle_packet_internal`.
-/

namespace FloridUsb.Stack
set_option autoImplicit false

open Lib Rpl

/-- What the program leaves to the machine it runs on. -/
structure Target where
  /-- The width of `size_t`. -/
  sizeBits : Nat
  wide : 16 ≤ sizeBits
  /-- The memory past the parser's buffer. -/
  outside : Nat → UInt8

structure RxPath (target : Target) where
  rxRing : ISRRingBuffer target.sizeBits 12
  parser : BipBuffer

inductive RxOp where
  | isrFeed (data : List UInt8)
  /-- One round of the loop of `drain_rx`. -/
  | drainRound
  | runOneCycle
  /-- `get_write_buffer`, as much of `data` as the span takes, `advance_write_index`. -/
  | dma (data : List UInt8)

inductive RxEvent where
  /-- `isr_feed`, and whether the ring took the bytes. -/
  | fed (data : List UInt8) (accepted : Bool)
  /-- `push_data` took the chunk. -/
  | pushed (data : List UInt8)
  /-- `push_data` refused the chunk, and `drain_rx` went on. -/
  | lost (data : List UInt8)
  | dma (data : List UInt8)
  | call (c : Call)
deriving DecidableEq

namespace RxPath

variable {target : Target}

def init (target : Target) (Ts : PacketTypes) : RxPath target where
  rxRing := .init (Nat.lt_of_lt_of_le (by decide) target.wide)
  parser := .init Ts.bufferSize

variable (Ts : PacketTypes) (s : RxPath target)

def isrFeed (data : List UInt8) : RxPath target × List RxEvent :=
  ({ s with rxRing := (s.rxRing.write data).1 }, [.fed data (s.rxRing.write data).2])

/-- One round of `drain_rx` on a ring that is not empty. -/
def drainRound : RxPath target × List RxEvent :=
  let avail := s.rxRing.available
  match s.rxRing.read (if avail < 256 then avail else 256) with
  | (rxRing, buf) =>
    match pushData Ts target.outside s.parser buf with
    | (parser, true, calls) => (⟨rxRing, parser⟩, .pushed buf :: calls.map .call)
    | (parser, false, _) => (⟨rxRing, parser⟩, [.lost buf])

/-- `drain_rx`: rounds until the ring is empty. -/
def drainLoop : Nat → RxPath target → RxPath target × List RxEvent
  | 0, s => (s, [])
  | fuel + 1, s =>
    if s.rxRing.available = 0 then (s, [])
    else
      let r := s.drainRound Ts
      ((drainLoop fuel r.1).1, r.2 ++ (drainLoop fuel r.1).2)

/-- Every round takes a byte at least, so the fuel is never the limit. -/
def drainRx : RxPath target × List RxEvent := drainLoop Ts s.rxRing.available s

def dma (data : List UInt8) : RxPath target × List RxEvent :=
  let span := s.parser.getWriteBuffer
  let data := data.take span.size
  match Rpl.advanceWriteIndex Ts target.outside (s.parser.store span data) data.length with
  | (parser, true, calls) => ({ s with parser := parser }, .dma data :: calls.map .call)
  | (parser, false, _) => ({ s with parser := parser }, [])

def step : RxOp → RxPath target × List RxEvent
  | .isrFeed data => s.isrFeed data
  | .drainRound => if s.rxRing.available = 0 then (s, []) else s.drainRound Ts
  | .runOneCycle => s.drainRx Ts
  | .dma data => s.dma Ts data

end RxPath

/-- The receive path of a stack with the given packet types. -/
def receiver (target : Target) (Ts : PacketTypes) : Machine (RxPath target) RxOp RxEvent where
  step := RxPath.step Ts

/-! ### What a log says -/

namespace RxEvent

/-- The bytes an event brings to the stack. -/
def delivered : RxEvent → List UInt8
  | .fed data true => data
  | .dma data => data
  | _ => []

/-- The bytes an event brings to the parser. -/
def handed : RxEvent → List UInt8
  | .pushed data => data
  | .dma data => data
  | _ => []

def call? : RxEvent → Option Call
  | .call c => some c
  | _ => none

end RxEvent

def deliveredBytes (log : List RxEvent) : List UInt8 := log.flatMap RxEvent.delivered

def handedBytes (log : List RxEvent) : List UInt8 := log.flatMap RxEvent.handed

def callsOf (log : List RxEvent) : List Call := log.filterMap RxEvent.call?

section Logs

variable (a b : List RxEvent) (calls : List Call)

@[simp] theorem deliveredBytes_nil : deliveredBytes [] = [] := rfl

@[simp] theorem deliveredBytes_cons (e : RxEvent) : deliveredBytes (e :: a) = e.delivered ++ deliveredBytes a := rfl

@[simp] theorem handedBytes_nil : handedBytes [] = [] := rfl

@[simp] theorem handedBytes_cons (e : RxEvent) : handedBytes (e :: a) = e.handed ++ handedBytes a := rfl

@[simp] theorem callsOf_nil : callsOf [] = [] := rfl

@[simp] theorem callsOf_cons (e : RxEvent) : callsOf (e :: a) = e.call?.toList ++ callsOf a := by
  cases e <;> rfl

@[simp] theorem deliveredBytes_append : deliveredBytes (a ++ b) = deliveredBytes a ++ deliveredBytes b :=
  List.flatMap_append

@[simp] theorem handedBytes_append : handedBytes (a ++ b) = handedBytes a ++ handedBytes b :=
  List.flatMap_append

@[simp] theorem callsOf_append : callsOf (a ++ b) = callsOf a ++ callsOf b := List.filterMap_append

@[simp] theorem deliveredBytes_calls : deliveredBytes (calls.map .call) = [] := by
  induction calls with
  | nil => rfl
  | cons c calls ih => exact ih

@[simp] theorem handedBytes_calls : handedBytes (calls.map .call) = [] := by
  induction calls with
  | nil => rfl
  | cons c calls ih => exact ih

@[simp] theorem callsOf_calls : callsOf (calls.map .call) = calls := by
  induction calls with
  | nil => rfl
  | cons c calls ih => exact congrArg (c :: ·) ih

end Logs

/-! ### What a round does -/

section Rounds

variable {target : Target} {Ts : PacketTypes}

/-- One round: the front of the ring goes to the parser, or is lost. -/
theorem RxPath.drainRound_cases (Ts : PacketTypes) (s : RxPath target) (wf : s.parser.Wf) :
    ∃ rxRing : ISRRingBuffer target.sizeBits 12, rxRing.content = s.rxRing.content.drop 256 ∧
      ((s.parser.Fits (s.rxRing.content.take 256).length ∧
          s.drainRound Ts =
            (⟨rxRing, (pushData Ts target.outside s.parser (s.rxRing.content.take 256)).1⟩,
              .pushed (s.rxRing.content.take 256) ::
                (pushData Ts target.outside s.parser (s.rxRing.content.take 256)).2.2.map .call)) ∨
        (¬ s.parser.Fits (s.rxRing.content.take 256).length ∧
          s.drainRound Ts = (⟨rxRing, s.parser⟩, [.lost (s.rxRing.content.take 256)]))) := by
  have request : ∀ l : List UInt8, l.length = s.rxRing.available →
      l.take (if s.rxRing.available < 256 then s.rxRing.available else 256) = l.take 256 ∧
        l.drop (if s.rxRing.available < 256 then s.rxRing.available else 256) = l.drop 256 := by
    intro l hl
    split
    · rw [List.take_of_length_le (by omega), List.take_of_length_le (by omega), List.drop_eq_nil_of_le (by omega),
        List.drop_eq_nil_of_le (by omega)]
      exact ⟨rfl, rfl⟩
    · exact ⟨rfl, rfl⟩
  have front := s.rxRing.read_content (if s.rxRing.available < 256 then s.rxRing.available else 256)
  rw [(request _ s.rxRing.length_content).1, (request _ s.rxRing.length_content).2] at front
  obtain ⟨⟨rxRing, buf⟩, copied⟩ :
      ∃ r, s.rxRing.read (if s.rxRing.available < 256 then s.rxRing.available else 256) = r :=
    ⟨_, rfl⟩
  rw [copied] at front
  obtain ⟨rfl, rest⟩ := front
  refine ⟨rxRing, rest, ?_⟩
  by_cases fits : s.parser.Fits (s.rxRing.content.take 256).length
  · refine .inl ⟨fits, ?_⟩
    simp only [drainRound, copied, pushData_accepted Ts target.outside wf fits]
  · refine .inr ⟨fits, ?_⟩
    simp only [drainRound, copied, pushData_refused Ts target.outside fits]

/-- An invariant of what is fed, of every round and of every DMA write holds after any operation. -/
theorem receiver_step {I : RxPath target → List RxEvent → Prop}
    (feed : ∀ s h data, I s h → I (s.isrFeed data).1 (h ++ (s.isrFeed data).2))
    (round : ∀ s h, s.rxRing.available ≠ 0 → I s h → I (s.drainRound Ts).1 (h ++ (s.drainRound Ts).2))
    {s : RxPath target} {h : List RxEvent} {o : RxOp}
    (dma : ∀ data, o = .dma data → I (s.dma Ts data).1 (h ++ (s.dma Ts data).2))
    (start : I s h) : I ((receiver target Ts).step s o).1 (h ++ ((receiver target Ts).step s o).2) := by
  have loop : ∀ fuel (t : RxPath target) g, I t g →
      I (RxPath.drainLoop Ts fuel t).1 (g ++ (RxPath.drainLoop Ts fuel t).2) := by
    intro fuel
    induction fuel with
    | zero =>
      intro t g i
      simpa [RxPath.drainLoop] using i
    | succ fuel ih =>
      intro t g i
      unfold RxPath.drainLoop
      split
      · simpa using i
      · rename_i pending
        have := ih _ _ (round t g pending i)
        rwa [List.append_assoc] at this
  cases o with
  | isrFeed data => exact feed s h data start
  | drainRound =>
    show I (if _ then _ else _ : RxPath target × List RxEvent).1
        (h ++ (if _ then _ else _ : RxPath target × List RxEvent).2)
    split
    · simpa using start
    · rename_i pending
      exact round s h pending start
  | runOneCycle => exact loop _ s h start
  | dma data => exact dma data rfl

/-! ### The parser follows what it is handed -/

/-- The parser's state is the scan of the bytes it was handed, and the calls are the scan's. -/
def Receiving (Ts : PacketTypes) (s : RxPath target) (log : List RxEvent) : Prop :=
  Follows Ts (handedBytes log) s.parser (callsOf log)

theorem Receiving.feed {s : RxPath target} {h : List RxEvent} (data : List UInt8) (receiving : Receiving Ts s h) :
    Receiving Ts (s.isrFeed data).1 (h ++ (s.isrFeed data).2) := by
  simpa [Receiving, RxPath.isrFeed, RxEvent.handed, RxEvent.call?] using receiving

theorem Receiving.round {s : RxPath target} {h : List RxEvent} (receiving : Receiving Ts s h) :
    Receiving Ts (s.drainRound Ts).1 (h ++ (s.drainRound Ts).2) := by
  obtain ⟨rxRing, -, ⟨fits, result⟩ | ⟨-, result⟩⟩ := s.drainRound_cases Ts (Follows.wf receiving)
  · have pushed := (Follows.push receiving target.outside fits).2
    rw [result]
    simpa [Receiving, RxEvent.handed, RxEvent.call?] using pushed
  · rw [result]
    simpa [Receiving, RxEvent.handed, RxEvent.call?] using receiving

/-- A DMA write is always committed. -/
theorem RxPath.dma_eq (s : RxPath target) (data : List UInt8) (wf : s.parser.Wf) :
    let written := data.take s.parser.getWriteBuffer.size
    let r := Rpl.advanceWriteIndex Ts target.outside (s.parser.store s.parser.getWriteBuffer written) written.length
    s.dma Ts data = ({ s with parser := r.1 }, .dma written :: r.2.2.map .call) := by
  have room : (data.take s.parser.getWriteBuffer.size).length ≤ s.parser.getWriteBuffer.size := by
    rw [List.length_take]
    omega
  have accepted := advanceWriteIndex_accepted Ts target.outside wf room
  simp only [dma, accepted]

theorem Receiving.dma {s : RxPath target} {h : List RxEvent} (data : List UInt8) (receiving : Receiving Ts s h) :
    Receiving Ts (s.dma Ts data).1 (h ++ (s.dma Ts data).2) := by
  have room : (data.take s.parser.getWriteBuffer.size).length ≤ s.parser.getWriteBuffer.size := by
    rw [List.length_take]
    omega
  have advanced := (Follows.advance receiving target.outside room).2
  rw [s.dma_eq data (Follows.wf receiving)]
  simpa [Receiving, RxEvent.handed, RxEvent.call?] using advanced

/-- **The parser follows its input** in every run. -/
theorem Receiving.run {s : RxPath target} (start : Receiving Ts s []) (ops : List RxOp) :
    Receiving Ts ((receiver target Ts).exec s ops) ((receiver target Ts).trace s ops) := by
  refine (receiver target Ts).run_invariant_always start (fun s h o receiving => ?_) ops
  exact receiver_step (fun _ _ data r => r.feed data) (fun _ _ _ r => r.round) (fun data _ => receiving.dma data)
    receiving

theorem receiver_follows (target : Target) (Ts : PacketTypes) (ops : List RxOp) :
    Receiving Ts ((receiver target Ts).exec (.init target Ts) ops)
      ((receiver target Ts).trace (.init target Ts) ops) := by
  apply Receiving.run
  exact Follows.init Ts

/-- A parser that has nothing unread starts afresh. -/
theorem Receiving.of_empty {s : RxPath target} {h : List RxEvent} (receiving : Receiving Ts s h)
    (empty : s.parser.available = 0) : Receiving Ts s [] where
  wf := Follows.wf receiving
  size := Follows.size receiving
  rest := List.length_eq_zero_iff.mp ((Follows.wf receiving).length_content.trans empty)
  presented := .nil

end Rounds

end FloridUsb.Stack
