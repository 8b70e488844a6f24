import FloridUsb.EndToEnd.Exchange
import FloridUsb.Session.Settling

/-!
# An exchange follows a stop-and-wait machine

With a window of one an exchange is a stop-and-wait protocol whose requests are registrations:
what each side holds of the requests, what is on the way for them, and what the operations of
either side do to it.
-/

namespace FloridUsb.EndToEnd
set_option autoImplicit false

open Lib Rpl Session Stack

/-! ### Numbers -/

/-- The next number, unless the numbers are used up. -/
def numbersLeft (s : ReliableSession) : List TransactionId := if s.nextTxId = 0 then [] else [s.nextTxId]

def ids (rs : List Registration) : List TransactionId := rs.map (·.txId)

@[simp] theorem ids_append (a b : List Registration) : ids (a ++ b) = ids a ++ ids b := List.map_append

theorem below_next {n : TransactionId} (left : n + 1 ≠ 0) : n < n + 1 := by
  rw [UInt32.lt_iff_toNat_lt, UInt32.toNat_add]
  have bound := n.toNat_lt
  have nonzero : (n + 1).toNat ≠ 0 := fun zero => left (UInt32.toNat_inj.mp zero)
  rw [UInt32.toNat_add] at nonzero
  have one : (1 : UInt32).toNat = 1 := rfl
  rw [one] at nonzero ⊢
  omega

section Advance

variable {s s' : ReliableSession} {l : List TransactionId}

theorem numbersLeft_same (next : s'.nextTxId = s.nextTxId) : numbersLeft s' = numbersLeft s := by
  rw [numbersLeft, next, numbersLeft]

/-- What is below the number taken is below those left. -/
theorem below_left (taken : numbersLeft s = [s.nextTxId]) (next : s'.nextTxId = s.nextTxId + 1) {t : TransactionId}
    (below : ∀ u ∈ l ++ numbersLeft s, t < u) : ∀ u ∈ (l ++ [s.nextTxId]) ++ numbersLeft s', t < u := by
  rw [taken] at below
  intro u member
  rcases List.mem_append.mp member with old | new
  · exact below u old
  · rw [numbersLeft, next] at new
    split at new
    · cases new
    · rename_i left
      rw [List.mem_singleton.mp new]
      exact UInt32.lt_trans (below s.nextTxId (by simp)) (below_next left)

theorem ascending_left (taken : numbersLeft s = [s.nextTxId]) (next : s'.nextTxId = s.nextTxId + 1)
    (ascending : (l ++ numbersLeft s).Pairwise (· < ·)) : ((l ++ [s.nextTxId]) ++ numbersLeft s').Pairwise (· < ·) := by
  rw [taken] at ascending
  rw [numbersLeft, next]
  split
  · rwa [List.append_nil]
  · rename_i left
    refine List.pairwise_append.mpr ⟨ascending, List.pairwise_singleton _ _, fun t member u new => ?_⟩
    rw [List.mem_singleton.mp new]
    rcases List.mem_append.mp member with old | this
    · exact UInt32.lt_trans ((List.pairwise_append.mp ascending).2.2 t old _ List.mem_cons_self) (below_next left)
    · rw [List.mem_singleton.mp this]
      exact below_next left

/-- From one session to another the numbers `new` are taken, one at most. -/
def Takes (s s' : ReliableSession) (new : List TransactionId) : Prop :=
  (new = [] ∧ s'.nextTxId = s.nextTxId) ∨ (new = [s.nextTxId] ∧ s.nextTxId ≠ 0 ∧ s'.nextTxId = s.nextTxId + 1)

/-- The numbers taken come in ascending order. -/
theorem Takes.ascending {new : List TransactionId} (takes : Takes s s' new)
    (ascending : (l ++ numbersLeft s).Pairwise (· < ·)) : ((l ++ new) ++ numbersLeft s').Pairwise (· < ·) := by
  rcases takes with ⟨rfl, next⟩ | ⟨rfl, left, next⟩
  · rw [List.append_nil, numbersLeft_same next]
    exact ascending
  · exact ascending_left (if_neg left) next ascending

end Advance

/-! ### The relation -/

section Relation

variable {Ts : PacketTypes} (service : Service Ts) (handlers : DenseMap UInt16 (Option HandlerId))

/-- What the session of the host holds of the requests. -/
structure HostHolds (s : ReliableSession) (a : StopAndWait.State Registration) : Prop where
  window : s.config.windowSize = 1
  count : s.inflightCount = if a.current.isSome then 1 else 0
  queue : s.outboundQueue = ids a.waiting
  /-- The registrations are those of a `send`. -/
  sent : ∀ r ∈ a.requests, ∃ args : SendArgs Ts, Answerable service handlers args ∧ r = args.registration r.txId
  waiting : ∀ r ∈ a.waiting, ∃ p, s.pendingByTx.find? r.txId = some p ∧ p.request = r ∧ p.inflight = false ∧
    p.retryCount = 0
  current : ∀ c, a.current = some c → ∃ p, s.pendingByTx.find? c.request.txId = some p ∧ p.request = c.request ∧
    p.inflight = true ∧ p.retryCount.toNat = c.retries
  pending : ∀ t p, s.pendingByTx.find? t = some p → t ∈ ids a.requests
  ascending : (0 :: ids a.requests ++ numbersLeft s).Pairwise (· < ·)
  /-- Responses were heard for earlier requests only. -/
  heard : ∀ cmd t, t ≠ 0 → composeDedupKey cmd t ∈ s.seenResponses.ids → ∀ u ∈ ids a.requests ++ numbersLeft s, t < u

/-- A frame that carries the request. -/
def IsRequest (r : Registration) (frame : List UInt8) : Prop :=
  ∃ seq, frame = frameBytes seq r.requestCmd r.requestBytes

/-- A frame that carries the response to the request. -/
def IsReply (r : Registration) (frame : List UInt8) : Prop :=
  ∃ seq reply, answerTo service handlers r.requestCmd r.txId r.requestBytes = some reply ∧
    frame = frameBytes seq reply.traits.cmd reply.bytes

def IsAck (Ts : PacketTypes) (frame : List UInt8) : Prop :=
  ∃ seq cmd t, frame = frameBytes seq (ackOf Ts cmd t).traits.cmd (ackOf Ts cmd t).bytes

/-- What the device knows of the requests; `left` are the numbers to come. -/
structure DeviceHolds (d : ProtocolStack Ts) (a : StopAndWait.State Registration)
    (left : List TransactionId) : Prop where
  handles : d.handlers = handlers
  capacity : 0 < d.session.config.deviceCacheCapacity
  /-- Only requests that were served have left a trace. -/
  known : ∀ cmd t, t ≠ 0 → composeDedupKey cmd t ∈ d.session.seenRequests.ids ∨
    composeDedupKey cmd t ∈ d.session.completedOrder → ∀ u ∈ ids a.unserved ++ left, t < u
  served : ∀ c, a.current = some c → c.served = true →
    composeDedupKey c.request.requestCmd c.request.txId ∈ d.session.seenRequests.ids ∧
    ∃ cached, d.session.completedCache.find? (composeDedupKey c.request.requestCmd c.request.txId) = some cached ∧
      IsReply service handlers c.request cached.responseBytes

/-- What is on the way for a request, to the device and back. -/
def OnTheWay (r : Registration) : StopAndWait.Place → List (List UInt8) → List (List UInt8) → Prop
  | .asking, out, back => (∃ frame, out = [frame] ∧ IsRequest r frame) ∧ back = []
  | .answering, out, back =>
    out = [] ∧ ∃ acks frame, back = acks ++ [frame] ∧ (∀ f ∈ acks, IsAck Ts f) ∧ IsReply service handlers r frame
  | .gone, out, back => out = [] ∧ ∀ f ∈ back, IsAck Ts f

/-- The frames on the way to the device, the queue of the host included. -/
def Exchange.out (x : Exchange Ts) : List (List UInt8) := x.toDevice ++ x.host.tx.queue.map (·.frame)

def Exchange.back (x : Exchange Ts) : List (List UInt8) := x.toHost ++ x.device.tx.queue.map (·.frame)

/-- The exchange is in the state of the stop-and-wait machine. -/
structure Follows (x : Exchange Ts) (a : StopAndWait.State Registration) : Prop where
  host : HostHolds service handlers x.host.session a
  device : DeviceHolds service handlers x.device a (numbersLeft x.host.session)
  idle : a.current = none → x.out = [] ∧ x.back = []
  way : ∀ c, a.current = some c → OnTheWay service handlers c.request c.place x.out x.back

end Relation

/-! ### The host -/

namespace HostHolds

variable {Ts : PacketTypes} {service : Service Ts} {handlers : DenseMap UInt16 (Option HandlerId)}
  {s s' : ReliableSession} {a : StopAndWait.State Registration}

/-- The numbers of the requests and those to come are not 0. -/
theorem nonzero (h : HostHolds service handlers s a) : ∀ t ∈ ids a.requests ++ numbersLeft s, t ≠ 0 := by
  intro t member zero
  have above := (List.pairwise_cons.mp h.ascending).1 t member
  rw [zero] at above
  exact absurd above (UInt32.lt_irrefl 0)

theorem lt_next (h : HostHolds service handlers s a) (left : s.nextTxId ≠ 0) {t : TransactionId}
    (member : t ∈ ids a.requests) : t < s.nextTxId := by
  have taken : numbersLeft s = [s.nextTxId] := if_neg left
  have ascending := h.ascending
  rw [taken] at ascending
  exact (List.pairwise_append.mp ascending).2.2 t (List.mem_cons_of_mem _ member) _ List.mem_cons_self

/-- What `send` registers is stored as it is. -/
theorem stored {args : SendArgs Ts} (answerable : Answerable service handlers args) (t : TransactionId) (now : Time) :
    (PendingEntry.ofRegistration (args.registration t) now).request = args.registration t := by
  have short : (args.registration t).requestBytes.length ≤ MAX_PACKET_SIZE := by
    have size := PacketTraits.length_setTxId t args.request.length_bytes
    exact Nat.le_trans (Nat.le_of_eq size) answerable.short
  have whole := List.take_of_length_le short
  simp only [PendingEntry.ofRegistration, PendingEntry.request, whole]

/-- A request is registered under the next number. -/
theorem send (h : HostHolds service handlers s a) (left : s.nextTxId ≠ 0) (now : Time) {args : SendArgs Ts}
    (answerable : Answerable service handlers args) :
    HostHolds service handlers (s.takeTxId.1.registerPending now (args.registration s.nextTxId))
      { a with waiting := a.waiting ++ [args.registration s.nextTxId] } := by
  have taken : numbersLeft s = [s.nextTxId] := if_neg left
  have next : (s.takeTxId.1.registerPending now (args.registration s.nextTxId)).nextTxId = s.nextTxId + 1 := rfl
  have requests : StopAndWait.State.requests { a with waiting := a.waiting ++ [args.registration s.nextTxId] } =
      a.requests ++ [args.registration s.nextTxId] := (List.append_assoc _ _ _).symm
  have known : ids (StopAndWait.State.requests { a with waiting := a.waiting ++ [args.registration s.nextTxId] }) =
      ids a.requests ++ [s.nextTxId] := by
    rw [requests, ids_append]
    rfl
  have others : ∀ t, t ≠ s.nextTxId →
      (s.takeTxId.1.registerPending now (args.registration s.nextTxId)).pendingByTx.find? t = s.pendingByTx.find? t :=
    fun t other => DenseMap.find?_insertOrAssign_ne _ _ other
  have old : ∀ r ∈ a.requests, r.txId ≠ s.nextTxId := fun r member =>
    UInt32.ne_of_lt (h.lt_next left (List.mem_map_of_mem member))
  constructor
  · exact h.window
  · exact h.count
  · show s.outboundQueue ++ [s.nextTxId] = ids (a.waiting ++ [args.registration s.nextTxId])
    rw [h.queue, ids_append]
    rfl
  · rw [requests]
    intro r member
    rcases List.mem_append.mp member with before | this
    · exact h.sent r before
    · rw [List.mem_singleton.mp this]
      exact ⟨args, answerable, rfl⟩
  · intro r member
    rcases List.mem_append.mp member with before | this
    · rw [others _ (old r (List.mem_append_right _ before))]
      exact h.waiting r before
    · rw [List.mem_singleton.mp this]
      exact ⟨_, DenseMap.find?_insertOrAssign_self _ _ _, stored answerable _ _, rfl, rfl⟩
  · intro c out
    have member : c.request ∈ a.requests := by
      apply List.mem_append_left
      rw [show a.current = some c from out]
      exact List.mem_singleton_self _
    rw [others _ (old _ member)]
    exact h.current c out
  · rw [known]
    intro t p found
    by_cases this : t = s.nextTxId
    · rw [this]
      simp
    · rw [others t this] at found
      exact List.mem_append_left _ (h.pending t p found)
  · rw [known]
    exact ascending_left (l := 0 :: ids a.requests) taken next h.ascending
  · rw [known]
    exact fun cmd t some_ seen => below_left taken next (h.heard cmd t some_ seen)

/-- A request that is not concluded is a packet of its type, whose number the peer reads. -/
theorem packet (h : HostHolds service handlers s a) {r : Registration} (member : r ∈ a.requests) :
    ∃ packet : Packet Ts, packet.traits.cmd = r.requestCmd ∧ packet.bytes = r.requestBytes ∧
      packet.traits.frameSize ≤ MAX_FRAME_SIZE ∧ extractTxIdFromRaw Ts r.requestCmd r.requestBytes = r.txId := by
  obtain ⟨args, answerable, same⟩ := h.sent r member
  refine ⟨⟨args.request.traits, args.request.traits.setTxId args.request.bytes r.txId, args.request.mem,
    PacketTraits.length_setTxId _ args.request.length_bytes⟩, ?_, ?_, ?_, ?_⟩
  · rw [same]
    rfl
  · rw [same]
    rfl
  · have short := answerable.short
    simp only [MAX_PACKET_SIZE] at short
    simp only [PacketTraits.frameSize, DefaultProtocol.headerSize, DefaultProtocol.tailSize, MAX_FRAME_SIZE]
    omega
  · have read := extractTxIdFromRaw_registration args r.txId
    rwa [← same] at read

/-- The request in front comes before the others and before the numbers to come. -/
theorem first_below (h : HostHolds service handlers s a) {r : Registration} {rest : List Registration}
    (first : a.requests = r :: rest) : ∀ u ∈ ids rest ++ numbersLeft s, r.txId < u := by
  have ascending := (List.pairwise_cons.mp h.ascending).2
  rw [first] at ascending
  exact (List.pairwise_cons.mp ascending).1

theorem first_distinct (h : HostHolds service handlers s a) {r : Registration} {rest : List Registration}
    (first : a.requests = r :: rest) : ∀ q ∈ rest, q.txId ≠ r.txId := by
  intro q member
  exact (UInt32.ne_of_lt (h.first_below first _ (List.mem_append_left _ (List.mem_map_of_mem member)))).symm

/-- A request that is not concluded goes to a handler that answers it. -/
theorem answer (h : HostHolds service handlers s a) {r : Registration} (member : r ∈ a.requests) :
    r.requestCmd < 0x6300 ∧ isRequestCmd r.requestCmd = true ∧ r.requestCmd ≠ ACK_CMD ∧
      ∃ reply, answerTo service handlers r.requestCmd r.txId r.requestBytes = some reply ∧
        reply.traits.cmd = r.responseCmd ∧ reply.traits.getTxId reply.bytes = r.txId ∧
        reply.traits.frameSize ≤ MAX_PACKET_SIZE := by
  obtain ⟨args, answerable, same⟩ := h.sent r member
  have cmd : r.requestCmd = args.request.traits.cmd := by
    rw [same]
    rfl
  have bytes : r.requestBytes = args.request.traits.setTxId args.request.bytes r.txId := congrArg _ same
  have responseCmd : r.responseCmd = args.responseCmd := by
    rw [same]
    rfl
  have low : r.requestCmd < 0x6300 := by
    rw [cmd]
    exact answerable.low
  refine ⟨low, ?_, ?_, ?_⟩
  · rw [cmd, isRequestCmd, decide_eq_true_eq]
    exact .inl answerable.odd
  · rintro ack
    rw [ack] at low
    exact absurd low (by decide)
  · rw [cmd, bytes, responseCmd]
    exact answerable.answered r.txId

/-- The next request goes out. -/
theorem start {r : Registration} {rest : List Registration} (h : HostHolds service handlers s ⟨r :: rest, none⟩)
    {p : PendingEntry} (request : p.request = r) (fresh : p.retryCount = 0) (deadline : Time) :
    HostHolds service handlers
      { s with
        outboundQueue := ids rest
        pendingByTx := s.pendingByTx.insertOrAssign r.txId { p with inflight := true, deadline := deadline }
        inflightCount := s.inflightCount + 1 } ⟨rest, some { request := r }⟩ := by
  have distinct := h.first_distinct rfl
  constructor
  · exact h.window
  · exact congrArg (· + 1) h.count
  · rfl
  · exact h.sent
  · intro q member
    rw [DenseMap.find?_insertOrAssign_ne _ _ (distinct q member)]
    exact h.waiting q (List.mem_cons_of_mem _ member)
  · intro c out
    cases out
    exact ⟨_, DenseMap.find?_insertOrAssign_self _ _ _, request, rfl, congrArg UInt8.toNat fresh⟩
  · intro t q there
    rw [DenseMap.find?_insertOrAssign] at there
    split at there
    · rename_i this
      rw [this]
      exact List.mem_cons_self
    · exact h.pending t q there
  · exact h.ascending
  · exact h.heard

/-- What is in flight is the request that is out. -/
theorem flying (h : HostHolds service handlers s a) {t : TransactionId} {p : PendingEntry}
    (found : s.pendingByTx.find? t = some p) (inflight : p.inflight = true) :
    ∃ c, a.current = some c ∧ t = c.request.txId ∧ p.request = c.request ∧ p.retryCount.toNat = c.retries := by
  obtain ⟨r, member, id⟩ := List.mem_map.mp (h.pending t p found)
  rcases List.mem_append.mp member with out | queued
  · obtain ⟨c, current, same⟩ := Option.map_eq_some_iff.mp (Option.mem_toList.mp out)
    obtain ⟨q, there, request, -, counted⟩ := h.current c current
    rw [same, id, found] at there
    cases there
    exact ⟨c, current, by rw [same, id], request, counted⟩
  · obtain ⟨q, there, -, waits, -⟩ := h.waiting r queued
    rw [id, found] at there
    cases there
    rw [inflight] at waits
    cases waits

/-- Once nothing is pending every request is concluded. -/
theorem none_left (h : HostHolds service handlers s a) (empty : s.pendingByTx.entries = []) : a.requests = [] := by
  have absent : ∀ t, s.pendingByTx.find? t = none := by
    intro t
    rw [DenseMap.find?, empty]
    rfl
  apply List.eq_nil_iff_forall_not_mem.mpr
  intro r member
  rcases List.mem_append.mp member with out | queued
  · obtain ⟨c, current, -⟩ := Option.map_eq_some_iff.mp (Option.mem_toList.mp out)
    obtain ⟨p, found, -⟩ := h.current c current
    rw [absent] at found
    cases found
  · obtain ⟨p, found, -⟩ := h.waiting r queued
    rw [absent] at found
    cases found

section Current

variable {waiting : List Registration} {r : Registration} {n n' : Nat} {was was' : Bool}
    {place place' : StopAndWait.Place}

/-- The entry of the request that is out changes. -/
theorem amend (h : HostHolds service handlers s ⟨waiting, some ⟨r, n, was, place⟩⟩) (config : s'.config = s.config)
    (count : s'.inflightCount = s.inflightCount) (queue : s'.outboundQueue = s.outboundQueue)
    (next : s'.nextTxId = s.nextTxId) (seen : s'.seenResponses = s.seenResponses)
    (others : ∀ t, t ≠ r.txId → s'.pendingByTx.find? t = s.pendingByTx.find? t) {p : PendingEntry}
    (found : s'.pendingByTx.find? r.txId = some p) (request : p.request = r) (flying : p.inflight = true)
    (counted : p.retryCount.toNat = n') : HostHolds service handlers s' ⟨waiting, some ⟨r, n', was', place'⟩⟩ := by
  have left := numbersLeft_same next
  constructor
  · rw [config]
    exact h.window
  · rw [count]
    exact h.count
  · rw [queue]
    exact h.queue
  · exact h.sent
  · intro q member
    rw [others _ (h.first_distinct rfl q member)]
    exact h.waiting q member
  · intro c out
    cases out
    exact ⟨p, found, request, flying, counted⟩
  · intro t q there
    by_cases this : t = r.txId
    · rw [this]
      exact List.mem_cons_self
    · rw [others t this] at there
      exact h.pending t q there
  · rw [left]
    exact h.ascending
  · rw [left, seen]
    exact h.heard

/-- Where the request has got to does not matter. -/
theorem move (h : HostHolds service handlers s ⟨waiting, some ⟨r, n, was, place⟩⟩) :
    HostHolds service handlers s ⟨waiting, some ⟨r, n, was', place'⟩⟩ := by
  obtain ⟨p, found, request, flying, counted⟩ := h.current _ rfl
  exact h.amend rfl rfl rfl rfl rfl (fun _ _ => rfl) found request flying counted

/-- The request that is out is concluded. -/
theorem conclude (h : HostHolds service handlers s ⟨waiting, some ⟨r, n, was, place⟩⟩) (config : s'.config = s.config)
    (count : s'.inflightCount = 0) (queue : s'.outboundQueue = s.outboundQueue) (next : s'.nextTxId = s.nextTxId)
    (seen : ∀ cmd t, composeDedupKey cmd t ∈ s'.seenResponses.ids →
      composeDedupKey cmd t ∈ s.seenResponses.ids ∨ t = r.txId)
    (others : ∀ t, t ≠ r.txId → s'.pendingByTx.find? t = s.pendingByTx.find? t)
    (gone : s'.pendingByTx.find? r.txId = none) : HostHolds service handlers s' ⟨waiting, none⟩ := by
  have left := numbersLeft_same next
  constructor
  · rw [config]
    exact h.window
  · exact count
  · rw [queue]
    exact h.queue
  · exact fun q member => h.sent q (List.mem_cons_of_mem _ member)
  · intro q member
    rw [others _ (h.first_distinct rfl q member)]
    exact h.waiting q member
  · intro c out
    cases out
  · intro t q there
    by_cases this : t = r.txId
    · rw [this, gone] at there
      cases there
    · rw [others t this] at there
      exact List.mem_of_ne_of_mem this (h.pending t q there)
  · rw [left]
    exact h.ascending.sublist (((List.sublist_cons_self _ _).cons_cons 0).append_right _)
  · rw [left]
    intro cmd t some_ heard u member
    rcases seen cmd t heard with before | this
    · exact h.heard cmd t some_ before u (List.mem_cons_of_mem _ member)
    · rw [this]
      exact h.first_below rfl u member

end Current

/-- An acknowledgement changes a deadline at most. -/
theorem ack (h : HostHolds service handlers s a) (now : Time) (t : TransactionId) :
    HostHolds service handlers (s.onAck now t) a := by
  rcases s.onAck_eq now t with same | ⟨p, found, inflight, done⟩
  · rw [same]
    exact h
  · obtain ⟨⟨r, n, was, place⟩, out, rfl, request, counted⟩ := h.flying found inflight
    obtain ⟨waiting, current⟩ := a
    cases out
    rw [done]
    exact h.amend rfl rfl rfl rfl rfl (fun u other => DenseMap.find?_insertOrAssign_ne _ _ other)
      (DenseMap.find?_insertOrAssign_self _ _ _) request inflight counted

section Poll

variable {waiting : List Registration} {r : Registration} {n : Nat} {was : Bool} {place : StopAndWait.Place}
  {p : PendingEntry} {now : Time}

/-- Nothing but the request that is out can be due. -/
theorem alone (h : HostHolds service handlers s ⟨waiting, some ⟨r, n, was, place⟩⟩) (now : Time) :
    ∀ u q, s.pendingByTx.find? u = some q → u ≠ r.txId → q.isDue now = false := by
  intro u q found other
  rw [Bool.eq_false_iff]
  intro due
  obtain ⟨c, out, id, -⟩ := h.flying found (PendingEntry.isDue_iff.mp due).1
  cases out
  exact other id

theorem pollLoop_others (h : HostHolds service handlers s ⟨waiting, some ⟨r, n, was, place⟩⟩)
    (clock : TransactionId → Time) :
    ∀ t, t ≠ r.txId → (s.pollLoop now clock).1.pendingByTx.find? t = s.pendingByTx.find? t := by
  intro t other
  rw [ReliableSession.pollLoop_find]
  cases found : s.pendingByTx.find? t with
  | none => rfl
  | some q => exact ReliableSession.pollKeeps_idle (h.alone now t q found other)

/-- A retry is counted. -/
theorem retry (h : HostHolds service handlers s ⟨waiting, some ⟨r, n, was, place⟩⟩)
    (found : s.pendingByTx.find? r.txId = some p) (request : p.request = r) (counted : p.retryCount.toNat = n)
    (due : p.isDue now = true) (lives : p.expires now = false) (clock : TransactionId → Time) :
    n < r.maxRetries.toNat ∧
      HostHolds service handlers (s.pollLoop now clock).1 ⟨waiting, some ⟨r, n + 1, was, .asking⟩⟩ := by
  have left := PendingEntry.retryCount_lt due lives
  have budget : p.maxRetries = r.maxRetries := congrArg Registration.maxRetries request
  have collected := ReliableSession.pollLoop_one clock found (h.alone now)
  have count : (s.pollLoop now clock).1.inflightCount = s.inflightCount := by
    show (s.pollLoop now clock).2.inflightCount = _
    rcases ReliableSession.pollKeeps_cases now clock (r.txId, p) with ⟨idle, -, -⟩ | ⟨expired, -, -⟩ |
      ⟨-, -, -, collects⟩
    · rw [due] at idle
      cases idle
    · rw [lives] at expired
      cases expired
    · rw [collected, collects]
  constructor
  · rw [← counted, ← budget]
    exact left
  · have config : (s.pollLoop now clock).1.config = s.config := rfl
    apply h.amend config count rfl rfl rfl (h.pollLoop_others clock)
      (p := { p with retryCount := p.retryCount + 1, deadline := clock r.txId + p.timeout })
    · rw [ReliableSession.pollLoop_find, found]
      exact ReliableSession.pollKeeps_retry due lives
    · exact request
    · exact (PendingEntry.isDue_iff.mp due).1
    · rw [← counted]
      exact PendingEntry.retryCount_succ left

/-- A request whose retries are spent goes. -/
theorem expire (h : HostHolds service handlers s ⟨waiting, some ⟨r, n, was, place⟩⟩)
    (found : s.pendingByTx.find? r.txId = some p) (request : p.request = r) (counted : p.retryCount.toNat = n)
    (expired : p.expires now = true) (clock : TransactionId → Time) :
    ¬ n < r.maxRetries.toNat ∧ HostHolds service handlers (s.pollLoop now clock).1 ⟨waiting, none⟩ := by
  have spent := (PendingEntry.spent_of_expires expired).2
  have budget : p.maxRetries = r.maxRetries := congrArg Registration.maxRetries request
  have collected := ReliableSession.pollLoop_one clock found (h.alone now)
  have count : (s.pollLoop now clock).1.inflightCount = 0 := by
    show (s.pollLoop now clock).2.inflightCount = _
    rcases ReliableSession.pollKeeps_cases now clock (r.txId, p) with ⟨idle, -, -⟩ | ⟨-, -, collects⟩ | ⟨-, lives, -, -⟩
    · rw [PendingEntry.expires_of_idle idle] at expired
      cases expired
    · rw [collected, collects]
      show s.inflightCount - 1 = 0
      rw [h.count]
      rfl
    · rw [expired] at lives
      cases lives
  constructor
  · rw [← counted, ← budget]
    exact Nat.not_lt.mpr (UInt8.le_iff_toNat_le.mp spent)
  · have config : (s.pollLoop now clock).1.config = s.config := rfl
    apply h.conclude config count rfl rfl (fun _ _ seen => .inl seen) (h.pollLoop_others clock)
    rw [ReliableSession.pollLoop_find, found]
    exact ReliableSession.pollKeeps_eq_none_iff.mpr expired

end Poll

/-- The response to the request that is out. -/
theorem respond {waiting : List Registration} {r : Registration} {n : Nat} {was : Bool} {place : StopAndWait.Place}
    (h : HostHolds service handlers s ⟨waiting, some ⟨r, n, was, place⟩⟩) (bytes : List UInt8) :
    (s.onResponse r.responseCmd r.txId bytes).2 = [.response r.txId r.responseCmd bytes] ∧
      HostHolds service handlers (s.onResponse r.responseCmd r.txId bytes).1 ⟨waiting, none⟩ := by
  obtain ⟨p, found, request, flying, -⟩ := h.current _ rfl
  have member : r ∈ StopAndWait.State.requests ⟨waiting, some ⟨r, n, was, place⟩⟩ := List.mem_cons_self
  have nonzero := h.nonzero r.txId (List.mem_append_left _ (List.mem_map_of_mem member))
  have new : composeDedupKey r.responseCmd r.txId ∉ s.seenResponses.ids := by
    intro seen
    have below := h.heard _ _ nonzero seen r.txId (List.mem_append_left _ (List.mem_map_of_mem member))
    exact UInt32.lt_irrefl _ below
  obtain ⟨args, answerable, same⟩ := h.sent r member
  have fits : p.responseCmd = r.responseCmd := congrArg Registration.responseCmd request
  have callback : p.onResponse = true := by
    have kept : p.onResponse = r.onResponse := congrArg Registration.onResponse request
    rw [kept, same]
    exact answerable.onResponse
  have id : p.txId = r.txId := congrArg Registration.txId request
  have count : ReliableSession.countWithout s.inflightCount p = 0 := by
    rw [h.count, ReliableSession.countWithout, flying]
    rfl
  rw [ReliableSession.onResponse_first new found fits callback, id, count]
  refine ⟨rfl, ?_⟩
  apply h.conclude
  · rfl
  · rfl
  · rfl
  · rfl
  · intro cmd t seen
    rcases IdRingBuffer.mem_of_mem_testAndInsert seen with before | this
    · exact .inl before
    · exact .inr (composeDedupKey_inj this).2
  · exact fun t other => DenseMap.find?_erase_ne _ other
  · exact DenseMap.find?_erase_self _ _

end HostHolds

/-! ### The device -/

namespace DeviceHolds

variable {Ts : PacketTypes} {service : Service Ts} {handlers : DenseMap UInt16 (Option HandlerId)}
  {d : ProtocolStack Ts} {a a' : StopAndWait.State Registration} {left left' : List TransactionId}

/-- Requests may be served or concluded, and others may come. -/
theorem mono (h : DeviceHolds service handlers d a left)
    (above : ∀ t, (∀ u ∈ ids a.unserved ++ left, t < u) → ∀ u ∈ ids a'.unserved ++ left', t < u)
    (served : ∀ c', a'.current = some c' → c'.served = true →
      ∃ c, a.current = some c ∧ c.served = true ∧ c.request = c'.request) :
    DeviceHolds service handlers d a' left' where
  handles := h.handles
  capacity := h.capacity
  known cmd t some_ known := above t (h.known cmd t some_ known)
  served c' out was := by
    obtain ⟨c, before, done, same⟩ := served c' out was
    rw [← same]
    exact h.served c before done

/-- The request that is out is concluded. -/
theorem conclude {waiting : List Registration} {current : Option (StopAndWait.Attempt Registration)}
    (h : DeviceHolds service handlers d ⟨waiting, current⟩ left) :
    DeviceHolds service handlers d ⟨waiting, none⟩ left := by
  apply h.mono
  · intro t below u member
    apply below
    rcases List.mem_append.mp member with queued | later
    · rw [StopAndWait.State.unserved, ids_append]
      exact List.mem_append_left _ (List.mem_append_right _ queued)
    · exact List.mem_append_right _ later
  · intro c out
    cases out

/-- How often the request was sent, and where it has got to, does not matter. -/
theorem move {waiting : List Registration} {r : Registration} {n n' : Nat} {was : Bool}
    {place place' : StopAndWait.Place}
    (h : DeviceHolds service handlers d ⟨waiting, some ⟨r, n, was, place⟩⟩ left) :
    DeviceHolds service handlers d ⟨waiting, some ⟨r, n', was, place'⟩⟩ left := by
  apply h.mono
  · cases was <;> exact fun t below => below
  · intro c out done
    cases out
    exact ⟨_, rfl, done, rfl⟩

/-- The transmit half does not matter. -/
theorem withTx (h : DeviceHolds service handlers d a left) (tx : TxPath) :
    DeviceHolds service handlers { d with tx := tx } a left :=
  ⟨h.handles, h.capacity, h.known, h.served⟩

section Serve

variable {waiting : List Registration} {r : Registration} {n : Nat} {place place' : StopAndWait.Place}

/-- A request that was not served has left no trace. -/
theorem unknown (h : DeviceHolds service handlers d ⟨waiting, some ⟨r, n, false, place⟩⟩ left) (nonzero : r.txId ≠ 0) :
    composeDedupKey r.requestCmd r.txId ∉ d.session.seenRequests.ids ∧
      composeDedupKey r.requestCmd r.txId ∉ d.session.completedOrder := by
  have never : ¬ (composeDedupKey r.requestCmd r.txId ∈ d.session.seenRequests.ids ∨
      composeDedupKey r.requestCmd r.txId ∈ d.session.completedOrder) := by
    intro known
    have below := h.known _ _ nonzero known r.txId (List.mem_append_left _ List.mem_cons_self)
    exact UInt32.lt_irrefl _ below
  exact not_or.mp never

/-- A request is served: the device remembers it, and caches its response. -/
theorem serve (h : DeviceHolds service handlers d ⟨waiting, some ⟨r, n, false, place⟩⟩ left) (nonzero : r.txId ≠ 0)
    (below : ∀ u ∈ ids waiting ++ left, r.txId < u) {reply : Packet Ts}
    (answer : answerTo service handlers r.requestCmd r.txId r.requestBytes = some reply)
    (small : reply.traits.frameSize ≤ MAX_PACKET_SIZE) (seq : UInt8) :
    DeviceHolds service handlers
      { d with
        session := (d.session.onRequest r.requestCmd r.txId).1.cacheResponse r.requestCmd r.txId reply.traits.cmd
          (frameBytes seq reply.traits.cmd reply.bytes) }
      ⟨waiting, some ⟨r, n, true, place'⟩⟩ left := by
  rw [d.session.onRequest_eq]
  generalize same : ({ d.session with seenRequests :=
    (d.session.seenRequests.testAndInsert (composeDedupKey r.requestCmd r.txId)).1 } : ReliableSession) = session
  have ring : session.seenRequests =
      (d.session.seenRequests.testAndInsert (composeDedupKey r.requestCmd r.txId)).1 := by
    rw [← same]
  have order : session.completedOrder = d.session.completedOrder := by rw [← same]
  have capacity : 0 < session.config.deviceCacheCapacity := by
    rw [← same]
    exact h.capacity
  have fresh : composeDedupKey r.requestCmd r.txId ∉ session.completedOrder := by
    rw [order]
    exact (h.unknown nonzero).2
  constructor
  · exact h.handles
  · exact capacity
  · intro cmd t some_ known u member
    have earlier : (composeDedupKey cmd t ∈ d.session.seenRequests.ids ∨
        composeDedupKey cmd t ∈ d.session.completedOrder) ∨
          composeDedupKey cmd t = composeDedupKey r.requestCmd r.txId := by
      rcases known with seen | cached
      · change composeDedupKey cmd t ∈ session.seenRequests.ids at seen
        rw [ring] at seen
        rcases IdRingBuffer.mem_of_mem_testAndInsert seen with before | this
        · exact .inl (.inl before)
        · exact .inr this
      · rcases ReliableSession.mem_cacheResponse_order cached with before | this
        · rw [order] at before
          exact .inl (.inr before)
        · exact .inr this
    rcases earlier with before | this
    · exact h.known cmd t some_ before u (List.mem_cons_of_mem _ member)
    · rw [(composeDedupKey_inj this).2]
      exact below u member
  · intro c out _
    cases out
    constructor
    · show _ ∈ session.seenRequests.ids
      rw [ring]
      exact IdRingBuffer.mem_testAndInsert_self _ _
    · refine ⟨_, ReliableSession.cacheResponse_newest capacity fresh, seq, reply, answer, ?_⟩
      apply List.take_of_length_le
      rw [length_frameBytes_packet]
      exact small

end Serve

end DeviceHolds

end FloridUsb.EndToEnd
