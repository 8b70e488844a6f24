import FloridUsb.Lib.DenseArray
import FloridUsb.Session.Run

/-!
# Pointers to request bytes

What `poll` returns points into the entries of the pending map, and is read after the error
callbacks have run. Here a session comes with the array of its entries in memory, and
`RetryPointer` is a `RetransmitEntry` as the source has it: a place in that array and a length.

The loop of `poll` erases entries and still leaves every pointer good (`pollLoop_reads`), since
an erasure only moves entries that are visited later. What the callbacks send afterwards
decides: `pointers_live_iff` says after which ones the pointers are still good.
-/

namespace FloridUsb.Session
set_option autoImplicit false

open Lib

/-- A `RetransmitEntry` of `poll`, with its pointer. -/
structure RetryPointer where
  txId : TransactionId
  requestCmd : UInt16
  requestBytes : Slot
  requestLen : Nat
deriving DecidableEq

namespace PendingEntry

/-- The member `request_bytes`: what the request leaves free is zero. -/
def array (p : PendingEntry) :
    List UInt8 := p.requestBytes ++ List.replicate (MAX_PACKET_SIZE - p.requestBytes.length) 0

def pointer (p : PendingEntry) (place : Slot) : RetryPointer := ⟨p.txId, p.requestCmd, place, p.requestBytes.length⟩

end PendingEntry

/-- A session and the array of its pending entries. -/
structure ArraySession where
  state : ReliableSession
  pending : DenseArray TransactionId PendingEntry
  same : pending.map = state.pendingByTx

/-- The bytes behind a pointer, if it does not dangle. -/
def RetryPointer.read (e : RetryPointer) (s : ArraySession) : Option (List UInt8) :=
  (s.pending.deref e.requestBytes).map fun d => d.2.array.take e.requestLen

namespace ReliableSession

/-! ### Operations that insert nothing -/

variable {s : ReliableSession}

theorem length_onAck {now : Time} {txId : TransactionId} :
    (s.onAck now txId).pendingByTx.entries.length ≤ s.pendingByTx.entries.length := by
  rcases s.onAck_eq now txId with same | ⟨p, found, -, done⟩
  · exact Nat.le_of_eq (by rw [same])
  · rw [done]
    exact Nat.le_of_eq (DenseMap.length_insertOrAssign_old _ found)

theorem length_onResponse {cmd : UInt16} {txId : TransactionId} {bytes : List UInt8} :
    (s.onResponse cmd txId bytes).1.pendingByTx.entries.length ≤ s.pendingByTx.entries.length := by
  rcases s.onResponse_cases cmd txId bytes with ⟨ring, done, -⟩ | ⟨ring, p, -, found, done⟩
  · exact Nat.le_of_eq (by rw [done])
  · rw [done]
    have gone := (DenseMap.erase_perm found).length_eq
    rw [List.length_cons] at gone
    show (s.pendingByTx.erase txId).entries.length ≤ _
    omega

theorem length_onRequest {cmd : UInt16} {txId : TransactionId} :
    (s.onRequest cmd txId).1.pendingByTx.entries.length ≤ s.pendingByTx.entries.length := by
  exact Nat.le_of_eq (by rw [s.onRequest_eq cmd txId])

theorem length_nextOutbound {now : Time} :
    (s.nextOutbound now).1.pendingByTx.entries.length ≤ s.pendingByTx.entries.length := by
  rcases pump_cases now s s.outboundQueue with ⟨_, _, -, -, -, done⟩ | ⟨_, _, _, p, -, -, found, -, done⟩
  · exact Nat.le_of_eq (by rw [nextOutbound, done])
  · rw [nextOutbound, done]
    exact Nat.le_of_eq (DenseMap.length_insertOrAssign_old _ found)

end ReliableSession

namespace ArraySession

/-- What the loop of `poll` collects, with the pointers. -/
structure PointerAcc where
  inflightCount : Nat
  retries : List RetryPointer := []
  callbacks : List (TransactionId × Bool) := []

/-- What the loop body of `poll` collects from the entry at a position of the array. -/
def pollCollectsAt (allocation : Nat) (now : Time) (acc : PointerAcc) (pos : Nat) (e : TransactionId × PendingEntry) :
    PointerAcc :=
  if ¬ e.2.inflight ∨ now < e.2.deadline then acc
  else if e.2.retryCount ≥ e.2.maxRetries then
    { acc with
      inflightCount := ReliableSession.countWithout acc.inflightCount e.2
      callbacks := acc.callbacks ++ [(e.2.txId, e.2.onError)] }
  else { acc with retries := acc.retries ++ [e.2.pointer ⟨allocation, pos⟩] }

def init (config : Config) : ArraySession := ⟨.init config, .empty, rfl⟩

variable (g : Growth) (s : ArraySession)

/-- A next state of the session that inserts nothing. -/
def inPlace (next : ReliableSession) (fewer : next.pendingByTx.entries.length ≤ s.state.pendingByTx.entries.length) :
    ArraySession where
  state := next
  pending := s.pending.inPlace next.pendingByTx (by rw [s.same]; exact fewer)
  same := rfl

def registerPending (now : Time) (r : Registration) : ArraySession where
  state := s.state.registerPending now r
  pending := s.pending.insertOrAssign g r.txId (.ofRegistration r now)
  same := by rw [DenseArray.map_insertOrAssign, s.same]; rfl

def registerAll (s : ArraySession) : List (Time × Registration) → ArraySession
  | [] => s
  | (now, r) :: rest => registerAll (s.registerPending g now r) rest

def runCallbacks (reentry : TransactionId → List (Time × Registration)) (s : ArraySession) :
    List (TransactionId × Bool) → ArraySession
  | [] => s
  | (txId, true) :: rest => runCallbacks reentry (registerAll g s (reentry txId)) rest
  | (_, false) :: rest => runCallbacks reentry s rest

def pollLoop (now : Time) (clock : TransactionId → Time) : ArraySession × PointerAcc :=
  let walked := s.pending.walk (ReliableSession.pollKeeps now clock) (pollCollectsAt s.pending.allocation now)
    { inflightCount := s.state.inflightCount }
  (⟨{ s.state with pendingByTx := walked.1.map, inflightCount := walked.2.inflightCount }, walked.1, rfl⟩, walked.2)

/-- `poll`: the state after the error callbacks, and the pointers made before them. -/
def poll (now : Time) (clock : TransactionId → Time) (reentry : TransactionId → List (Time × Registration)) :
    ArraySession × List RetryPointer :=
  let loop := s.pollLoop now clock
  (runCallbacks g reentry loop.1 loop.2.callbacks, loop.2.retries)

def step : Op → ArraySession
  | .registerPending now r => s.registerPending g now r
  | .onAck now txId => s.inPlace (s.state.onAck now txId) ReliableSession.length_onAck
  | .onResponse cmd txId bytes => s.inPlace (s.state.onResponse cmd txId bytes).1 ReliableSession.length_onResponse
  | .onRequest cmd txId => s.inPlace (s.state.onRequest cmd txId).1 ReliableSession.length_onRequest
  | .cacheResponse cmd txId responseCmd responseBytes =>
    s.inPlace (s.state.cacheResponse cmd txId responseCmd responseBytes) (Nat.le_refl _)
  | .poll now clock reentry => (s.poll g now clock reentry).1
  | .nextOutbound now => s.inPlace (s.state.nextOutbound now).1 ReliableSession.length_nextOutbound
  | .resetDeviceState => s.inPlace s.state.resetDeviceState (Nat.le_refl _)

/-- The session after some operations. -/
def run (s : ArraySession) : List Op → ArraySession
  | [] => s
  | o :: ops => run (s.step g o) ops

/-! ### What a poll comes to -/

variable (now : Time) (clock : TransactionId → Time) (reentry : TransactionId → List (Time × Registration))

/-- The entries, each at the place where the loop of `poll` visits it, in that order. -/
def visits : List (Nat × (TransactionId × PendingEntry)) := s.pending.tour (ReliableSession.pollKeeps now clock)

/-- The visited entries that are retried. -/
def retried : List (Nat × (TransactionId × PendingEntry)) :=
  (s.visits now clock).filter fun v => v.2.2.isDue now && !v.2.2.expires now

/-- What the error callbacks register: those of the entries that expire. -/
def calls : List (Time × Registration) :=
  ((s.visits now clock).filter fun v => v.2.2.expires now && v.2.2.onError).flatMap fun v => reentry v.2.2.txId

/-- The transactions that do not expire. -/
def staying : List TransactionId := (s.state.pendingByTx.entries.filter fun e => !e.2.expires now).map Prod.fst

variable {s now clock reentry}

theorem mem_retried {v : Nat × (TransactionId × PendingEntry)} : v ∈ s.retried now clock ↔
    v ∈ s.visits now clock ∧ v.2.2.isDue now = true ∧ v.2.2.expires now = false := by
  simp [retried]

/-- Every pending entry is visited. -/
theorem mem_visits {e : TransactionId × PendingEntry} : s.state.pendingByTx.find? e.1 = some e.2 ↔
    ∃ pos, (pos, e) ∈ s.visits now clock := by
  rw [DenseMap.find?_eq_some, ← s.same, ← (s.pending.tour_perm (ReliableSession.pollKeeps now clock)).mem_iff,
    List.mem_map]
  constructor
  · rintro ⟨⟨pos, _⟩, visited, rfl⟩
    exact ⟨pos, visited⟩
  · rintro ⟨pos, visited⟩
    exact ⟨(pos, e), visited, rfl⟩

/-! ### The session in the array is the session -/

variable {g}

/-- The loop body collects what it collects without pointers. -/
theorem pollCollectsAt_eq (allocation : Nat) (now : Time) (acc : PointerAcc) (pos : Nat)
    (e : TransactionId × PendingEntry) :
    pollCollectsAt allocation now acc pos e =
      let plain := ReliableSession.pollCollects now { inflightCount := acc.inflightCount, callbacks := acc.callbacks } e
      { inflightCount := plain.inflightCount
        retries := acc.retries ++ plain.retries.map fun _ => e.2.pointer ⟨allocation, pos⟩
        callbacks := plain.callbacks } := by
  unfold pollCollectsAt ReliableSession.pollCollects
  split
  · simp
  split
  · simp
  · simp

theorem collectedAt (now : Time) (allocation : Nat) (visits : List (Nat × (TransactionId × PendingEntry)))
    (acc : PointerAcc) (plain : ReliableSession.PollAcc) (count : acc.inflightCount = plain.inflightCount)
    (due : acc.callbacks = plain.callbacks) :
    (visits.foldl (fun acc v => pollCollectsAt allocation now acc v.1 v.2) acc).inflightCount =
        (visits.foldl (fun acc v => ReliableSession.pollCollects now acc v.2) plain).inflightCount ∧
      (visits.foldl (fun acc v => pollCollectsAt allocation now acc v.1 v.2) acc).callbacks =
        (visits.foldl (fun acc v => ReliableSession.pollCollects now acc v.2) plain).callbacks := by
  induction visits generalizing acc plain with
  | nil => exact ⟨count, due⟩
  | cons v visits ih =>
    rw [List.foldl_cons, List.foldl_cons]
    rcases ReliableSession.pollKeeps_cases now (fun _ => 0) v.2 with ⟨-, -, same⟩ | ⟨-, -, same⟩ | ⟨-, -, -, same⟩ <;>
      apply ih <;> simp only [pollCollectsAt_eq, same] <;> simp only [count, due]

/-- The pointers are those to the due entries that have not expired, each where it is visited. -/
theorem collected_pointers (allocation : Nat) (visits : List (Nat × (TransactionId × PendingEntry)))
    (acc : PointerAcc) :
    (visits.foldl (fun acc v => pollCollectsAt allocation now acc v.1 v.2) acc).retries =
      acc.retries ++ (visits.filter fun v => v.2.2.isDue now && !v.2.2.expires now).map fun v =>
        v.2.2.pointer ⟨allocation, v.1⟩ := by
  induction visits generalizing acc with
  | nil => simp
  | cons v visits ih =>
    rw [List.foldl_cons, ih, pollCollectsAt_eq]
    rcases ReliableSession.pollKeeps_cases now (fun _ => 0) v.2 with ⟨idle, -, same⟩ | ⟨expired, -, drops⟩ |
      ⟨due, lives, -, retries⟩
    · simp [same, idle]
    · simp [drops, expired]
    · simp [retries, due, lives]

/-- What the loop collects without pointers, in the order of the array. -/
theorem plain_pollLoop : (s.state.pollLoop now clock).2 =
    ((s.visits now clock).map Prod.snd).foldl (ReliableSession.pollCollects now)
      { inflightCount := s.state.inflightCount } := by
  rw [visits, List.foldl_map, ← DenseArray.sweep_collects, s.same]
  rfl

theorem state_pollLoop : (s.pollLoop now clock).1.state = (s.state.pollLoop now clock).1 ∧
    (s.pollLoop now clock).2.callbacks = (s.state.pollLoop now clock).2.callbacks := by
  have map := s.pending.map_walk (ReliableSession.pollKeeps now clock) (pollCollectsAt s.pending.allocation now)
    { inflightCount := s.state.inflightCount } (ReliableSession.pollCollects now)
    { inflightCount := s.state.inflightCount }
  have agree := collectedAt now s.pending.allocation (s.visits now clock) { inflightCount := s.state.inflightCount }
    { inflightCount := s.state.inflightCount } rfl rfl
  rw [← List.foldl_map (f := Prod.snd) (g := ReliableSession.pollCollects now), ← plain_pollLoop,
    visits, ← s.pending.walk_collects] at agree
  rw [s.same] at map
  constructor
  · simp only [pollLoop, ReliableSession.pollLoop, map, agree.1]
  · exact agree.2

theorem state_registerAll (calls : List (Time × Registration)) :
    (s.registerAll g calls).state = (ReliableSession.registerAll s.state calls).1 := by
  induction calls generalizing s with
  | nil => rfl
  | cons call calls ih => exact ih

theorem state_runCallbacks (callbacks : List (TransactionId × Bool)) :
    (runCallbacks g reentry s callbacks).state = (ReliableSession.runCallbacks reentry s.state callbacks).1 := by
  induction callbacks generalizing s with
  | nil => rfl
  | cons callback callbacks ih =>
    obtain ⟨txId, present⟩ := callback
    cases present with
    | false => exact ih
    | true =>
      rw [runCallbacks, ih, state_registerAll]
      rfl

theorem state_poll : (s.poll g now clock reentry).1.state = (s.state.poll now clock reentry).1 := by
  show (runCallbacks g reentry _ _).state = (ReliableSession.runCallbacks reentry _ _).1
  rw [state_runCallbacks, state_pollLoop.1, state_pollLoop.2]

theorem state_step (o : Op) : (s.step g o).state = (Session.session.step s.state o).1 := by
  cases o with
  | poll now clock reentry => exact state_poll
  | _ => rfl

/-- In memory or not, a session makes the same run. -/
theorem state_run (ops : List Op) : (s.run g ops).state = Session.session.exec s.state ops := by
  induction ops generalizing s with
  | nil => rfl
  | cons o ops ih =>
    rw [run, ih, state_step]
    rfl

/-! ### The pointers before the callbacks -/

theorem retries_pollLoop : (s.pollLoop now clock).2.retries =
    (s.retried now clock).map fun v => v.2.2.pointer ⟨s.pending.allocation, v.1⟩ := by
  show PointerAcc.retries (s.pending.walk _ _ _).2 = _
  rw [DenseArray.walk_collects]
  exact collected_pointers ..

/-- A retried entry lies where the loop visited it, for the same request. -/
theorem retried_kept {v : Nat × (TransactionId × PendingEntry)} (member : v ∈ s.retried now clock) :
    ∃ p, (s.pollLoop now clock).1.pending.map.entries[v.1]? = some (v.2.1, p) ∧ p.request = v.2.2.request := by
  obtain ⟨visited, due, lives⟩ := mem_retried.mp member
  have keeps : ReliableSession.pollKeeps now clock v.2 = _ := ReliableSession.pollKeeps_retry due lives
  exact ⟨_, s.pending.getElem?_walk _ _ _ visited keeps, rfl⟩

theorem take_array (p : PendingEntry) : p.array.take p.requestBytes.length = p.requestBytes := List.take_left

/-- The entries that the session retransmits. -/
theorem plain_retries :
    (s.state.pollLoop now clock).2.retries = (s.retried now clock).map fun v => v.2.2.toRetransmit := by
  rw [plain_pollLoop, ReliableSession.collected_retries, List.filter_map, List.map_map]
  rfl

/-- **The loop leaves the pointers good.** Read before the callbacks, they yield the entries that the
session retransmits. -/
theorem pollLoop_reads :
    (s.pollLoop now clock).2.retries.map (fun e =>
        (e.read (s.pollLoop now clock).1).map (RetransmitEntry.mk e.txId e.requestCmd)) =
      (s.state.pollLoop now clock).2.retries.map some := by
  rw [retries_pollLoop, plain_retries, List.map_map, List.map_map]
  apply List.map_congr_left
  intro v member
  obtain ⟨p, here, same⟩ := retried_kept member
  have bytes : p.requestBytes = v.2.2.requestBytes := congrArg Registration.requestBytes same
  have found : (s.pollLoop now clock).1.pending.deref ⟨s.pending.allocation, v.1⟩ = some (v.2.1, p) := by
    rw [DenseArray.deref]
    exact (if_pos rfl).trans here
  simp only [Function.comp, PendingEntry.pointer, RetryPointer.read, found, Option.map_some, ← bytes, take_array]
  rw [bytes]
  rfl

/-! ### What the callbacks do to the array -/

/-- The entry that a registration makes. -/
def entryOf (call : Time × Registration) : TransactionId × PendingEntry := (call.2.txId, .ofRegistration call.2 call.1)

theorem pending_registerAll (calls : List (Time × Registration)) :
    (s.registerAll g calls).pending = s.pending.insertAll g (calls.map entryOf) := by
  induction calls generalizing s with
  | nil => rfl
  | cons call calls ih => exact ih

theorem pending_runCallbacks (callbacks : List (TransactionId × Bool)) :
    (runCallbacks g reentry s callbacks).pending =
      s.pending.insertAll g (((callbacks.filter (·.2)).flatMap fun cb => reentry cb.1).map entryOf) := by
  induction callbacks generalizing s with
  | nil => rfl
  | cons callback callbacks ih =>
    obtain ⟨txId, present⟩ := callback
    cases present with
    | false => exact ih
    | true =>
      rw [runCallbacks, ih, pending_registerAll, ← DenseArray.insertAll_append, List.filter_cons_of_pos rfl,
        List.flatMap_cons, List.map_append]

theorem pending_poll : (s.poll g now clock reentry).1.pending =
    (s.pollLoop now clock).1.pending.insertAll g ((s.calls now clock reentry).map entryOf) := by
  have callbacks : (s.pollLoop now clock).2.callbacks =
      ((s.visits now clock).filter fun v => v.2.2.expires now).map fun v => (v.2.2.txId, v.2.2.onError) := by
    rw [state_pollLoop.2, plain_pollLoop, ReliableSession.collected_callbacks, List.filter_map, List.map_map]
    rfl
  show (runCallbacks g reentry _ _).pending = _
  rw [pending_runCallbacks, callbacks, calls, List.filter_map, List.filter_filter, List.flatMap_map]
  congr 4
  funext v
  exact Bool.and_comm ..

/-! ### Which pointers stay good -/

/-- The events of registrations. -/
def registrations (calls : List (Time × Registration)) : List Event := calls.map fun call => .registered call.2

/-- The last entry made for a transaction is that of its last registration. -/
theorem lookup_entryOf (t : TransactionId) (calls : List (Time × Registration)) :
    (lookup t (calls.map entryOf).reverse).map PendingEntry.request =
      (lastRegistered t (registrations calls)).map Registration.stored := by
  induction calls using List.reverseRecOn with
  | nil => rfl
  | append_singleton calls call ih =>
    rw [registrations, List.map_append, List.map_append, List.reverse_append, List.map_singleton, List.map_singleton,
      lastRegistered_registered, List.reverse_singleton, List.singleton_append, lookup]
    by_cases own : call.2.txId = t
    · rw [if_pos own]
      exact congrArg (Option.map PendingEntry.request) (if_pos own)
    · rw [if_neg own]
      exact (congrArg (Option.map PendingEntry.request) (if_neg own)).trans ih

theorem length_stored_le (r : Registration) : r.stored.requestBytes.length ≤ MAX_PACKET_SIZE := by
  show (r.requestBytes.take MAX_PACKET_SIZE).length ≤ _
  rw [List.length_take]
  exact Nat.min_le_left ..

/-- A prefix of the array is the request if it has its length. -/
theorem take_array_iff {p : PendingEntry} {n : Nat} (own : p.requestBytes.length ≤ MAX_PACKET_SIZE)
    (fits : n ≤ MAX_PACKET_SIZE) :
    p.array.take n = p.requestBytes ↔ p.requestBytes.length = n := by
  constructor
  · intro same
    have length := congrArg List.length same
    rw [PendingEntry.array, List.length_take, List.length_append, List.length_replicate] at length
    omega
  · rintro rfl
    exact take_array p

theorem mem_keys_pollLoop {t : TransactionId} : t ∈ (s.pollLoop now clock).1.pending.keys ↔ t ∈ s.staying now := by
  have keys : t ∈ (s.pollLoop now clock).1.pending.keys ↔
      ((s.state.pollLoop now clock).1.pendingByTx.find? t).isSome := by
    rw [DenseArray.keys, (s.pollLoop now clock).1.same, state_pollLoop.1, ← Option.ne_none_iff_isSome, ne_eq,
      DenseMap.find?, lookup_eq_none_iff, not_not]
  rw [keys, ReliableSession.pollLoop_find, staying, List.mem_map]
  constructor
  · intro found
    obtain ⟨p, kept⟩ := Option.isSome_iff_exists.mp found
    obtain ⟨q, hq, keeps⟩ := Option.bind_eq_some_iff.mp kept
    refine ⟨(t, q), List.mem_filter.mpr ⟨DenseMap.find?_eq_some.mp hq, ?_⟩, rfl⟩
    rw [Bool.not_eq_true', Bool.eq_false_iff]
    intro expired
    rw [ReliableSession.pollKeeps_eq_none_iff.mpr expired] at keeps
    cases keeps
  · rintro ⟨⟨u, q⟩, member, rfl⟩
    obtain ⟨here, lives⟩ := List.mem_filter.mp member
    rw [Bool.not_eq_true', Bool.eq_false_iff, ne_eq] at lives
    rw [DenseMap.find?_eq_some.mpr here, Option.bind_some, ← Option.ne_none_iff_isSome, ne_eq,
      ReliableSession.pollKeeps_eq_none_iff]
    exact lives

/-- Registrations after the loop leave the array where it is if they have room beside what stays. -/
theorem allocation_registered (calls : List (Time × Registration)) :
    ((s.pollLoop now clock).1.pending.insertAll g (calls.map entryOf)).allocation = s.pending.allocation ↔
      (calls.map (·.2.txId) ∪ s.staying now).length ≤ s.pending.capacity := by
  have keys : ((calls.map entryOf).map Prod.fst ∪ (s.pollLoop now clock).1.pending.keys).length =
      (calls.map (·.2.txId) ∪ s.staying now).length := by
    apply length_eq_of_nodup
    · exact (s.pollLoop now clock).1.pending.map.nodup.union _
    · apply List.Nodup.union
      exact (List.filter_sublist.map Prod.fst).nodup s.state.pendingByTx.nodup
    · intro t
      rw [List.mem_union_iff, List.mem_union_iff, mem_keys_pollLoop, List.map_map]
      rfl
  rw [← keys]
  constructor
  · intro stays
    by_contra exceeds
    have moved := DenseArray.allocation_lt_insertAll (g := g) (Nat.lt_of_not_le exceeds)
    exact absurd stays (Nat.ne_of_gt moved)
  · intro room
    exact DenseArray.allocation_insertAll room

/-- The callbacks leave the array where it is if what they register has room beside what stays. -/
theorem allocation_poll : (s.poll g now clock reentry).1.pending.allocation = s.pending.allocation ↔
    ((s.calls now clock reentry).map (·.2.txId) ∪ s.staying now).length ≤ s.pending.capacity := by
  rw [pending_poll]
  exact allocation_registered _

/-- Registrations after the loop have room in the array, and if they put an entry for the transaction
into it, its array begins with the given bytes. -/
structure Undisturbed (s : ArraySession) (now : Time) (calls : List (Time × Registration)) (t : TransactionId)
    (bytes : List UInt8) : Prop where
  room : (calls.map (·.2.txId) ∪ s.staying now).length ≤ s.pending.capacity
  rewritten : ∀ q, lookup t (calls.map entryOf).reverse = some q → bytes <+: q.array

/-- **What a pointer reads after registrations.** It is the request that the loop of `poll` retried,
if and only if they leave it undisturbed. -/
theorem read_iff {v : Nat × (TransactionId × PendingEntry)} (member : v ∈ s.retried now clock)
    {calls : List (Time × Registration)} {after : ArraySession}
    (pending : after.pending = (s.pollLoop now clock).1.pending.insertAll g (calls.map entryOf)) :
    (v.2.2.pointer ⟨s.pending.allocation, v.1⟩).read after = some v.2.2.requestBytes ↔
      s.Undisturbed now calls v.2.1 v.2.2.requestBytes := by
  obtain ⟨kept, here, same⟩ := retried_kept member
  have request : kept.requestBytes = v.2.2.requestBytes := congrArg Registration.requestBytes same
  have place := DenseArray.getElem?_insertAll (g := g) (l := calls.map entryOf) here
  have stays := @allocation_registered g s now clock calls
  rw [← pending] at place stays
  have deref : after.pending.deref ⟨s.pending.allocation, v.1⟩ =
      if after.pending.allocation = s.pending.allocation
        then some (v.2.1, (lookup v.2.1 (calls.map entryOf).reverse).getD kept) else none := by
    rw [DenseArray.deref, place]
    simp only [eq_comm]
  -- where no registration wrote over the entry, the loop has left its bytes
  have begins : v.2.2.requestBytes <+: ((lookup v.2.1 (calls.map entryOf).reverse).getD kept).array ↔
      ∀ q, lookup v.2.1 (calls.map entryOf).reverse = some q → v.2.2.requestBytes <+: q.array := by
    cases lookup v.2.1 (calls.map entryOf).reverse with
    | some q => simp
    | none =>
      rw [Option.getD_none, ← request]
      simp [PendingEntry.array]
  rw [RetryPointer.read, PendingEntry.pointer, deref]
  constructor
  · intro read
    split at read
    · rename_i allocation
      rw [Option.map_some, Option.some.injEq] at read
      exact ⟨stays.mp allocation, begins.mp (List.prefix_iff_eq_take.mpr read.symm)⟩
    · cases read
  · intro undisturbed
    rw [if_pos (stays.mpr undisturbed.room), Option.map_some, Option.some.injEq]
    exact (List.prefix_iff_eq_take.mp (begins.mpr undisturbed.rewritten)).symm

end ArraySession

/-- The pointer refers to the entry of its own transaction, and the bytes behind it are those
registered for it. -/
structure RetryPointer.Live (e : RetryPointer) (s : ArraySession) (log : List Event) : Prop where
  own : ∃ p, s.pending.deref e.requestBytes = some (e.txId, p)
  bytes : ∃ r, lastRegistered e.txId log = some r ∧ e.read s = some r.stored.requestBytes

namespace ArraySession

variable {g : Growth} {s : ArraySession} {now : Time} {clock : TransactionId → Time}
  {reentry : TransactionId → List (Time × Registration)}

/-- The request of a pending entry is the one registered last, and it fits the array. -/
theorem pending_request {log : List Event} (recorded : ReliableSession.Recorded s.state log) {t : TransactionId}
    {p : PendingEntry} (found : s.state.pendingByTx.find? t = some p) :
    p.txId = t ∧ p.requestBytes.length ≤ MAX_PACKET_SIZE ∧
      ∃ r, lastRegistered t log = some r ∧ p.requestBytes = r.stored.requestBytes := by
  obtain ⟨r, last, stored⟩ := recorded t p found
  have bytes : p.requestBytes = r.stored.requestBytes := congrArg Registration.requestBytes stored
  refine ⟨?_, ?_, r, last, bytes⟩
  · exact (congrArg Registration.txId stored).trans (mem_of_lastRegistered last).2
  · rw [bytes]
    exact length_stored_le r

/-- After the callbacks an entry of the same transaction is at the place of a retried entry. Its request
has the old length if that of the last registration among the callbacks has. -/
theorem retried_place {v : Nat × (TransactionId × PendingEntry)} (member : v ∈ s.retried now clock) :
    ∃ q, (s.poll g now clock reentry).1.pending.map.entries[v.1]? = some (v.2.1, q) ∧
      (q.requestBytes.length = v.2.2.requestBytes.length ↔
        ∀ r, lastRegistered v.2.1 (registrations (s.calls now clock reentry)) = some r →
          r.stored.requestBytes.length = v.2.2.requestBytes.length) := by
  obtain ⟨kept, here, same⟩ := retried_kept member
  have place := DenseArray.getElem?_insertAll (g := g) (l := (s.calls now clock reentry).map entryOf) here
  rw [← pending_poll] at place
  refine ⟨_, place, ?_⟩
  have final := lookup_entryOf v.2.1 (s.calls now clock reentry)
  cases again : lookup v.2.1 ((s.calls now clock reentry).map entryOf).reverse with
  | none =>
    rw [again] at final
    have request : kept.requestBytes = v.2.2.requestBytes := congrArg Registration.requestBytes same
    constructor
    · intro _ r last
      rw [last] at final
      cases final
    · intro _
      exact congrArg List.length request
  | some q =>
    rw [again] at final
    obtain ⟨r, last, request⟩ := Option.map_eq_some_iff.mp final.symm
    have request : q.requestBytes = r.stored.requestBytes := (congrArg Registration.requestBytes request).symm
    rw [last, Option.getD_some, request]
    constructor
    · rintro length _ ⟨⟩
      exact length
    · intro length
      exact length r rfl

/-- A pointer is live after the callbacks if the array is still where it was, and if a request that
was registered anew has the length of the old one. -/
theorem live_iff {log : List Event} (before : ReliableSession.Recorded s.state log) {log' : List Event}
    (after : ReliableSession.Recorded (s.poll g now clock reentry).1.state log')
    {v : Nat × (TransactionId × PendingEntry)} (member : v ∈ s.retried now clock) :
    (v.2.2.pointer ⟨s.pending.allocation, v.1⟩).Live (s.poll g now clock reentry).1 log' ↔
      (s.poll g now clock reentry).1.pending.allocation = s.pending.allocation ∧
        ∀ r, lastRegistered v.2.1 (registrations (s.calls now clock reentry)) = some r →
          r.stored.requestBytes.length = v.2.2.requestBytes.length := by
  obtain ⟨q, place, lengths⟩ : ∃ q, (s.poll g now clock reentry).1.pending.map.entries[v.1]? = _ ∧ _ :=
    retried_place member
  obtain ⟨id, fits, -⟩ := pending_request before (mem_visits.mpr ⟨v.1, (mem_retried.mp member).1⟩)
  have found : (s.poll g now clock reentry).1.state.pendingByTx.find? v.2.1 = some q := by
    rw [DenseMap.find?_eq_some, ← (s.poll g now clock reentry).1.same]
    exact List.mem_of_getElem? place
  obtain ⟨-, own, r, last, bytes⟩ := pending_request after found
  rw [← lengths, ← take_array_iff own fits, bytes]
  have deref : (s.poll g now clock reentry).1.pending.deref ⟨s.pending.allocation, v.1⟩ =
      if (s.poll g now clock reentry).1.pending.allocation = s.pending.allocation then some (v.2.1, q) else none := by
    rw [DenseArray.deref, place]
    simp only [eq_comm]
  constructor
  · rintro ⟨⟨_, refers⟩, r', last', read⟩
    simp only [PendingEntry.pointer, id] at refers last' read
    rw [last] at last'
    cases last'
    rw [deref] at refers
    split at refers
    swap
    · cases refers
    rename_i stays
    rw [RetryPointer.read, deref, if_pos stays, Option.map_some] at read
    exact ⟨stays, Option.some.inj read⟩
  · rintro ⟨stays, read⟩
    constructor
    · refine ⟨q, ?_⟩
      rw [PendingEntry.pointer, deref, if_pos stays, id]
    · refine ⟨r, ?_, ?_⟩
      · rw [PendingEntry.pointer, id]
        exact last
      · rw [RetryPointer.read, PendingEntry.pointer, deref, if_pos stays, Option.map_some, read]

/-- What the error callbacks of a poll register has room in the array, and does not change the
length of a request that is retried. -/
structure Steady (s : ArraySession) (now : Time) (clock : TransactionId → Time)
    (reentry : TransactionId → List (Time × Registration)) : Prop where
  room : ((s.calls now clock reentry).map (·.2.txId) ∪ s.staying now).length ≤ s.pending.capacity
  sameLength : ∀ t p, s.state.pendingByTx.find? t = some p → p.isDue now = true → p.expires now = false →
    ∀ r, lastRegistered t (registrations (s.calls now clock reentry)) = some r →
      r.stored.requestBytes.length = p.requestBytes.length

end ArraySession

/-- **Pointers to request bytes.** In every reachable session, and for all that the error callbacks of
a poll send, each pointer that the poll returns is live when it is read, if and only if nothing
is retried or the callbacks are steady. -/
theorem pointers_live_iff (g : Growth) (config : Config) (ops : List Op) (now : Time) (clock : TransactionId → Time)
    (reentry : TransactionId → List (Time × Registration)) :
    let s := ArraySession.run g (.init config) ops
    let polled := s.poll g now clock reentry
    (∀ e ∈ polled.2, e.Live polled.1 (session.trace (.init config) (ops ++ [.poll now clock reentry]))) ↔
      (∀ t p, s.state.pendingByTx.find? t = some p → p.isDue now = true → p.expires now = true) ∨
        s.Steady now clock reentry := by
  intro s polled
  have before : ReliableSession.Recorded s.state (session.trace (.init config) ops) := by
    rw [ArraySession.state_run]
    exact ReliableSession.recorded_run config ops
  have after : ReliableSession.Recorded polled.1.state
      (session.trace (.init config) (ops ++ [.poll now clock reentry])) := by
    have run := ReliableSession.recorded_run config (ops ++ [.poll now clock reentry])
    rw [session.exec_append] at run
    rw [ArraySession.state_poll, ArraySession.state_run]
    exact run
  have pointers : polled.2 = (s.retried now clock).map fun v => v.2.2.pointer ⟨s.pending.allocation, v.1⟩ :=
    ArraySession.retries_pollLoop
  rw [pointers]
  constructor
  · intro live
    by_cases retried : ∃ t p, s.state.pendingByTx.find? t = some p ∧ p.isDue now = true ∧ p.expires now = false
    swap
    · refine .inl fun t p found due => ?_
      by_contra lives
      exact retried ⟨t, p, found, due, by simpa using lives⟩
    -- every retried entry is visited, and its pointer is live
    have each : ∀ t p, s.state.pendingByTx.find? t = some p → p.isDue now = true → p.expires now = false →
        polled.1.pending.allocation = s.pending.allocation ∧
          ∀ r, lastRegistered t (ArraySession.registrations (s.calls now clock reentry)) = some r →
            r.stored.requestBytes.length = p.requestBytes.length := by
      intro t p found due lives
      obtain ⟨pos, visited⟩ := (ArraySession.mem_visits (e := (t, p))).mp found
      have member := ArraySession.mem_retried.mpr ⟨visited, due, lives⟩
      exact (ArraySession.live_iff before after member).mp (live _ (List.mem_map_of_mem member))
    obtain ⟨t, p, found, due, lives⟩ := retried
    right
    constructor
    · exact ArraySession.allocation_poll.mp (each t p found due lives).1
    · intro t p found due lives
      exact (each t p found due lives).2
  · intro condition e member
    obtain ⟨v, retried, rfl⟩ := List.mem_map.mp member
    obtain ⟨visited, due, lives⟩ := ArraySession.mem_retried.mp retried
    have found : s.state.pendingByTx.find? v.2.1 = some v.2.2 := ArraySession.mem_visits.mpr ⟨v.1, visited⟩
    rcases condition with nothing | steady
    · rw [nothing _ _ found due] at lives
      cases lives
    · rw [ArraySession.live_iff before after retried]
      exact ⟨ArraySession.allocation_poll.mpr steady.room, steady.sameLength _ _ found due lives⟩

/-- The capacity doubles. -/
def doubling : Growth where
  grow n := if n = 0 then 1 else 2 * n
  grows := by
    intro n
    split <;> omega

/-- Two requests in flight, both overdue. The first has no retry left, and its error callback sends two
more, which have no room beside the second. So its pointer dangles. -/
theorem retry_dangles :
    let request (t : TransactionId) (maxRetries : UInt8) : Registration :=
      ⟨t, 0x6103, 0x6104, [1, 2, 3], true, true, 200000, maxRetries⟩
    let ops : List Op :=
      [.registerPending 0 (request 1 0), .registerPending 0 (request 2 3), .nextOutbound 0, .nextOutbound 0]
    let reentry : TransactionId → List (Time × Registration) := fun _ => [(200001, request 3 3), (200001, request 4 3)]
    let polled := (ArraySession.run doubling (.init { windowSize := 2 }) ops).poll doubling 200001
        (fun _ => 200001) reentry
    polled.2.map (·.txId) = [2] ∧ (∀ e ∈ polled.2, e.read polled.1 = none) ∧
      ¬ ∀ e ∈ polled.2, e.Live polled.1 (session.trace (.init { windowSize := 2 })
        (ops ++ [.poll 200001 (fun _ => 200001) reentry])) := by
  intro request ops reentry polled
  have dangling : polled.2.map (fun e => (e.txId, e.read polled.1)) = [(2, none)] := by decide
  have txs : polled.2.map (·.txId) = [2] := by
    have := congrArg (List.map Prod.fst) dangling
    rwa [List.map_map] at this
  have reads : ∀ e ∈ polled.2, e.read polled.1 = none := by
    intro e member
    have pair : (e.txId, e.read polled.1) ∈ polled.2.map (fun e => (e.txId, e.read polled.1)) :=
      List.mem_map_of_mem member
    rw [dangling] at pair
    exact (Prod.mk.inj (List.mem_singleton.mp pair)).2
  refine ⟨txs, reads, fun live => ?_⟩
  obtain ⟨e, member, -⟩ := List.mem_map.mp
      (txs ▸ List.mem_singleton.mpr rfl : (2 : TransactionId) ∈ polled.2.map (·.txId))
  obtain ⟨-, r, -, read⟩ := live e member
  rw [reads e member] at read
  cases read

end FloridUsb.Session
