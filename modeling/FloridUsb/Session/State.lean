import FloridUsb.Lib.DenseMap
import FloridUsb.Session.IdRing

/-!
# The reliable session

`ReliableSession` (`ReliableSession.hpp`): the host side tracks pending requests and hands
them out under a window, the device side recognises repeated requests and keeps the last
responses. Times are ticks of `Clock`, and every reading of the clock is an argument.

A callback is the fact that it is not empty; its invocation is an event that names the
transaction. What callbacks of `poll` do to the session, further registrations, is an
argument of `poll`. Other callbacks come last in their function, so what they do follows it.
-/

namespace FloridUsb.Session
set_option autoImplicit false

open Lib

abbrev TransactionId := UInt32

/-- The command and the transaction of a request. -/
abbrev RequestKey := UInt16 × TransactionId

/-- `Clock::time_point` and `Clock::duration`, in ticks without bound: a deadline is assumed not to
overflow the representation of the clock. -/
abbrev Time := Int

inductive SessionError where
  | transportFailure | timeout
deriving DecidableEq

/-- The members of `Config` that the session reads. -/
structure Config where
  windowSize : Nat := 1
  deviceCacheCapacity : Nat := 64

def MAX_PACKET_SIZE : Nat := 256

structure PendingEntry where
  txId : TransactionId := 0
  requestCmd : UInt16 := 0
  responseCmd : UInt16 := 0
  /-- The first `request_len` bytes of the array. -/
  requestBytes : List UInt8 := []
  onResponse : Bool := false
  onError : Bool := false
  timeout : Time := 200000
  maxRetries : UInt8 := 3
  retryCount : UInt8 := 0
  inflight : Bool := false
  deadline : Time := 0
deriving DecidableEq

structure CompletedResponse where
  responseCmd : UInt16
  responseBytes : List UInt8
deriving DecidableEq

/-- `RetransmitEntry`, with the bytes its pointer points to. -/
structure RetransmitEntry where
  txId : TransactionId
  requestCmd : UInt16
  requestBytes : List UInt8
deriving DecidableEq

/-- `RequestResult`; there is a cached response if the data pointer is not null. -/
structure RequestResult where
  shouldAck : Bool := true
  isDuplicate : Bool := false
  cached : Option CompletedResponse := none
deriving DecidableEq

/-- The arguments of `register_pending`. -/
structure Registration where
  txId : TransactionId
  requestCmd : UInt16
  responseCmd : UInt16
  requestBytes : List UInt8
  onResponse : Bool
  onError : Bool
  timeout : Time
  maxRetries : UInt8
deriving DecidableEq

/-- What a session does that is seen outside it. -/
inductive Event where
  | registered (r : Registration)
  /-- `next_outbound` returns an entry. -/
  | handedOut (e : RetransmitEntry)
  /-- `poll` returns an entry. -/
  | retransmitted (e : RetransmitEntry)
  /-- The response callback of a request is invoked. -/
  | response (txId : TransactionId) (cmd : UInt16) (bytes : List UInt8)
  /-- The error callback of a request is invoked. -/
  | error (txId : TransactionId) (err : SessionError)
  /-- `on_request` returns a result. -/
  | requested (cmd : UInt16) (txId : TransactionId) (result : RequestResult)
deriving DecidableEq

structure ReliableSession where
  config : Config
  nextTxId : TransactionId := 1
  inflightCount : Nat := 0
  pendingByTx : DenseMap TransactionId PendingEntry := .empty
  outboundQueue : List TransactionId := []
  completedCache : DenseMap DedupKey CompletedResponse := .empty
  completedOrder : List DedupKey := []
  seenRequests : DedupRingBuffer := .init 6
  seenResponses : DedupRingBuffer := .init 6

namespace PendingEntry

/-- The entry `register_pending` makes. -/
def ofRegistration (r : Registration) (now : Time) : PendingEntry where
  txId := r.txId
  requestCmd := r.requestCmd
  responseCmd := r.responseCmd
  requestBytes := r.requestBytes.take MAX_PACKET_SIZE
  onResponse := r.onResponse
  onError := r.onError
  timeout := r.timeout
  maxRetries := r.maxRetries
  deadline := now + r.timeout

def toRetransmit (p : PendingEntry) : RetransmitEntry := ⟨p.txId, p.requestCmd, p.requestBytes⟩

end PendingEntry

namespace ReliableSession

/-- The constructor: a window of 0 is taken as 1. -/
def init (config : Config) : ReliableSession where
  config := { config with windowSize := if config.windowSize = 0 then 1 else config.windowSize }

variable (s : ReliableSession)

/-! ### Host side -/

/-- `next_tx_id`. -/
def takeTxId : ReliableSession × TransactionId := ({ s with nextTxId := s.nextTxId + 1 }, s.nextTxId)

def setNextTxId (nextTxId : TransactionId) : ReliableSession :=
  { s with nextTxId := if nextTxId = 0 then 1 else nextTxId }

def registerPending (now : Time) (r : Registration) : ReliableSession :=
  { s with
    pendingByTx := s.pendingByTx.insertOrAssign r.txId (.ofRegistration r now)
    outboundQueue := s.outboundQueue ++ [r.txId] }

def onAck (now : Time) (txId : TransactionId) : ReliableSession :=
  match s.pendingByTx.find? txId with
  | none => s
  | some pending =>
    if pending.inflight then
      { s with pendingByTx := s.pendingByTx.insertOrAssign txId { pending with deadline := now + pending.timeout } }
    else s

/-- The count without the given entry, if it is in flight. -/
def countWithout (inflightCount : Nat) (pending : PendingEntry) : Nat :=
  if pending.inflight ∧ inflightCount > 0 then inflightCount - 1 else inflightCount

def onResponse (cmdId : UInt16) (txId : TransactionId) (bytes : List UInt8) : ReliableSession × List Event :=
  let dk := composeDedupKey cmdId txId
  match s.seenResponses.testAndInsert dk with
  | (seenResponses, true) => ({ s with seenResponses := seenResponses }, [])
  | (seenResponses, false) =>
    let s := { s with seenResponses := seenResponses }
    match s.pendingByTx.find? txId with
    | none => (s, [])
    | some pending =>
      let s := { s with
        inflightCount := countWithout s.inflightCount pending
        pendingByTx := s.pendingByTx.erase txId }
      if pending.responseCmd = cmdId ∧ pending.onResponse then (s, [.response pending.txId cmdId bytes]) else (s, [])

/-! ### Device side -/

def onRequest (cmdId : UInt16) (txId : TransactionId) : ReliableSession × RequestResult :=
  let dk := composeDedupKey cmdId txId
  match s.seenRequests.testAndInsert dk with
  | (seenRequests, true) =>
    ({ s with seenRequests := seenRequests },
      { shouldAck := true, isDuplicate := true, cached := s.completedCache.find? dk })
  | (seenRequests, false) => ({ s with seenRequests := seenRequests }, { shouldAck := true, isDuplicate := false })

/-- `shrink_device_cache`: the loop over the order queue, oldest first. -/
def shrink (capacity : Nat) (cache : DenseMap DedupKey CompletedResponse) :
    List DedupKey → DenseMap DedupKey CompletedResponse × List DedupKey
  | [] => (cache, [])
  | oldest :: rest =>
    if (oldest :: rest).length > capacity then shrink capacity (cache.erase oldest) rest else (cache, oldest :: rest)

def shrinkDeviceCache : ReliableSession :=
  { s with
    completedCache := (shrink s.config.deviceCacheCapacity s.completedCache s.completedOrder).1
    completedOrder := (shrink s.config.deviceCacheCapacity s.completedCache s.completedOrder).2 }

def cacheResponse (cmdId : UInt16) (txId : TransactionId) (responseCmd : UInt16) (responseBytes : List UInt8) :
    ReliableSession :=
  let dk := composeDedupKey cmdId txId
  shrinkDeviceCache { s with
    completedCache := s.completedCache.insertOrAssign dk ⟨responseCmd, responseBytes.take MAX_PACKET_SIZE⟩
    completedOrder := s.completedOrder ++ [dk] }

def resetDeviceState : ReliableSession :=
  { s with seenRequests := .init 6, seenResponses := .init 6, completedCache := .empty, completedOrder := [] }

/-! ### Timeouts and retries -/

/-- What the loop of `poll` collects. -/
structure PollAcc where
  inflightCount : Nat
  retries : List RetransmitEntry := []
  /-- The transactions whose error callback is due, and whether it is there. -/
  callbacks : List (TransactionId × Bool) := []

/-- The entry after the loop body of `poll`, if it stays. -/
def pollKeeps (now : Time) (clock : TransactionId → Time) (e : TransactionId × PendingEntry) : Option PendingEntry :=
  if ¬ e.2.inflight ∨ now < e.2.deadline then some e.2
  else if e.2.retryCount ≥ e.2.maxRetries then none
  else some { e.2 with retryCount := e.2.retryCount + 1, deadline := clock e.1 + e.2.timeout }

/-- What the loop body of `poll` collects from an entry. -/
def pollCollects (now : Time) (acc : PollAcc) (e : TransactionId × PendingEntry) : PollAcc :=
  if ¬ e.2.inflight ∨ now < e.2.deadline then acc
  else if e.2.retryCount ≥ e.2.maxRetries then
    { acc with
      inflightCount := countWithout acc.inflightCount e.2
      callbacks := acc.callbacks ++ [(e.2.txId, e.2.onError)] }
  else { acc with retries := acc.retries ++ [e.2.toRetransmit] }

/-- Registrations made one after the other. -/
def registerAll (s : ReliableSession) : List (Time × Registration) → ReliableSession × List Event
  | [] => (s, [])
  | (now, r) :: rest =>
    ((registerAll (s.registerPending now r) rest).1, .registered r :: (registerAll (s.registerPending now r) rest).2)

/-- The callbacks after the loop of `poll`, each with the registrations it makes. -/
def runCallbacks (reentry : TransactionId → List (Time × Registration)) (s : ReliableSession) :
    List (TransactionId × Bool) → ReliableSession × List Event
  | [] => (s, [])
  | (txId, true) :: rest =>
    let r := registerAll s (reentry txId)
    ((runCallbacks reentry r.1 rest).1, .error txId .timeout :: (r.2 ++ (runCallbacks reentry r.1 rest).2))
  | (_, false) :: rest => runCallbacks reentry s rest

/-- The loop of `poll` at `now`; the clock is read again for each retry. -/
def pollLoop (now : Time) (clock : TransactionId → Time) : ReliableSession × PollAcc :=
  let swept := s.pendingByTx.sweep (fun acc e => (pollKeeps now clock e, pollCollects now acc e))
    { inflightCount := s.inflightCount }
  ({ s with pendingByTx := swept.1, inflightCount := swept.2.inflightCount }, swept.2)

def poll (now : Time) (clock : TransactionId → Time) (reentry : TransactionId → List (Time × Registration)) :
    ReliableSession × List Event × List RetransmitEntry :=
  let loop := s.pollLoop now clock
  let r := runCallbacks reentry loop.1 loop.2.callbacks
  (r.1, r.2, loop.2.retries)

/-! ### The window -/

/-- The loop of `next_outbound` over the outbound queue. -/
def pump (now : Time) (s : ReliableSession) : List TransactionId → ReliableSession × Option RetransmitEntry
  | [] => ({ s with outboundQueue := [] }, none)
  | txId :: rest =>
    if s.inflightCount < s.config.windowSize then
      match s.pendingByTx.find? txId with
      | none => pump now s rest
      | some pending =>
        let pending := { pending with inflight := true, deadline := now + pending.timeout }
        ({ s with
          outboundQueue := rest
          pendingByTx := s.pendingByTx.insertOrAssign txId pending
          inflightCount := s.inflightCount + 1 }, some pending.toRetransmit)
    else ({ s with outboundQueue := txId :: rest }, none)

def nextOutbound (now : Time) : ReliableSession × Option RetransmitEntry := pump now s s.outboundQueue

def nextDeadline : Option Time :=
  s.pendingByTx.entries.foldl (fun earliest e =>
    if ¬ e.2.inflight then earliest
    else match earliest with
      | none => some e.2.deadline
      | some t => if e.2.deadline < t then some e.2.deadline else earliest) none

end ReliableSession

end FloridUsb.Session
