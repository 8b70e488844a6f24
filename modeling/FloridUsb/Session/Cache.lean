import FloridUsb.Session.Run

/-!
# The cache of answered requests

A device that answers every new request before it takes the next one. The ring of seen requests
holds the last 64 keys accepted, the order list of the cache the last `device_cache_capacity`
keys answered (`Aligned`). A cache of more than 64 keeps a key that the ring has forgotten; when
the key is accepted again it stands twice in the order list, and the older place takes the newer
response with it (`Unspoiled`). With a capacity of 64 that cannot happen.
-/

namespace FloridUsb.Session
set_option autoImplicit false

open Lib ReliableSession

/-- A request, and the response it gets if it is new. -/
structure Serving where
  cmd : UInt16
  txId : TransactionId
  responseCmd : UInt16
  responseBytes : List UInt8
deriving DecidableEq

def Serving.key (v : Serving) : DedupKey := composeDedupKey v.cmd v.txId

/-- The response as `cache_response` stores it. -/
def Serving.stored (v : Serving) : CompletedResponse := ⟨v.responseCmd, v.responseBytes.take MAX_PACKET_SIZE⟩

inductive Served where
  /-- `on_request` reports a new request, and `cache_response` is called for it. -/
  | answered (k : DedupKey) (response : CompletedResponse)
  /-- `on_request` reports a duplicate, with the response it found. -/
  | duplicate (k : DedupKey) (cached : Option CompletedResponse)
deriving DecidableEq

def ReliableSession.serve (s : ReliableSession) (v : Serving) : ReliableSession × List Served :=
  let r := s.onRequest v.cmd v.txId
  if r.2.isDuplicate then (r.1, [.duplicate v.key r.2.cached])
  else (r.1.cacheResponse v.cmd v.txId v.responseCmd v.responseBytes, [.answered v.key v.stored])

/-- The device side as a machine. -/
def server : Machine ReliableSession Serving Served where
  step := ReliableSession.serve

def Served.answers? : Served → Option (DedupKey × CompletedResponse)
  | .answered k response => some (k, response)
  | .duplicate _ _ => none

/-- What was cached, in order. -/
def cachings (log : List Served) : List (DedupKey × CompletedResponse) := log.filterMap Served.answers?

def answeredKeys (log : List Served) : List DedupKey := (cachings log).map Prod.fst

/-- The response last cached for a key. -/
def lastAnswer (log : List Served) (k : DedupKey) : Option CompletedResponse :=
  (((cachings log).filter fun e => e.1 = k).getLast?).map Prod.snd

/-- Every duplicate gets the response last cached for it. -/
def AnswersBack (log : List Served) : Prop :=
  ∀ pre k cached post, log = pre ++ .duplicate k cached :: post → ∃ c, cached = some c ∧ lastAnswer pre k = some c

@[simp] theorem cachings_append (a b : List Served) :
    cachings (a ++ b) = cachings a ++ cachings b := List.filterMap_append

theorem answeredKeys_answered (log : List Served) (k : DedupKey) (c : CompletedResponse) :
    answeredKeys (log ++ [.answered k c]) = answeredKeys log ++ [k] := by
  rw [answeredKeys, cachings_append, List.map_append]
  rfl

theorem answeredKeys_duplicate (log : List Served) (k : DedupKey) (cached : Option CompletedResponse) :
    answeredKeys (log ++ [.duplicate k cached]) = answeredKeys log := by
  rw [answeredKeys, cachings_append]
  exact congrArg _ (List.append_nil _)

theorem lastAnswer_duplicate (log : List Served) (k : DedupKey) (cached : Option CompletedResponse) :
    lastAnswer (log ++ [.duplicate k cached]) = lastAnswer log := by
  funext j
  rw [lastAnswer, cachings_append]
  exact congrArg (fun l : List (DedupKey × CompletedResponse) => ((l.filter fun e => e.1 = j).getLast?).map Prod.snd)
    (List.append_nil _)

theorem lastAnswer_answered (log : List Served) (k j : DedupKey) (c : CompletedResponse) :
    lastAnswer (log ++ [.answered k c]) j = if j = k then some c else lastAnswer log j := by
  have new : cachings [.answered k c] = [(k, c)] := rfl
  rw [lastAnswer, cachings_append, new, List.filter_append]
  by_cases same : j = k
  · rw [if_pos same, List.filter_cons_of_pos (by simp [same]), List.filter_nil, List.getLast?_concat]
    rfl
  · rw [if_neg same, List.filter_cons_of_neg (by simpa using fun h => same h.symm), List.filter_nil, List.append_nil]
    rfl

/-! ### One request -/

section Serve

variable {s : ReliableSession} {v : Serving}

theorem serve_duplicate (seen : v.key ∈ s.seenRequests.ids) :
    s.serve v = (s, [.duplicate v.key (s.completedCache.find? v.key)]) := by
  have result : s.onRequest v.cmd v.txId = (s, ⟨true, true, s.completedCache.find? v.key⟩) := by
    simp only [onRequest, IdRingBuffer.testAndInsert_seen (show composeDedupKey v.cmd v.txId ∈ _ from seen)]
    rfl
  rw [serve, result]
  rfl

/-- A new request comes into the ring, the cache and the order list, which is then shortened. -/
theorem serve_new (new : v.key ∉ s.seenRequests.ids) :
    s.serve v = ({ s with
      seenRequests := (s.seenRequests.testAndInsert v.key).1
      completedCache := (shrink s.config.deviceCacheCapacity (s.completedCache.insertOrAssign v.key v.stored)
        (s.completedOrder ++ [v.key])).1
      completedOrder := (shrink s.config.deviceCacheCapacity (s.completedCache.insertOrAssign v.key v.stored)
        (s.completedOrder ++ [v.key])).2 }, [.answered v.key v.stored]) := by
  have accepted := IdRingBuffer.testAndInsert_new (show composeDedupKey v.cmd v.txId ∉ _ from new)
  have result : s.onRequest v.cmd v.txId =
      ({ s with seenRequests := (s.seenRequests.testAndInsert v.key).1 }, ⟨true, false, none⟩) := by
    generalize made : (s.seenRequests.testAndInsert (composeDedupKey v.cmd v.txId)).1 = ring at accepted
    rw [show (s.seenRequests.testAndInsert v.key).1 = ring from made]
    simp only [onRequest, accepted]
  rw [serve, result]
  rfl

theorem shrink_of_fits {capacity : Nat} {cache : DenseMap DedupKey CompletedResponse} {order : List DedupKey}
    (fits : order.length ≤ capacity) : shrink capacity cache order = (cache, order) := by
  cases order with
  | nil => rfl
  | cons oldest rest => rw [shrink, if_neg (by omega)]

/-- One key too many costs the oldest one, and its response. -/
theorem shrink_of_full {capacity : Nat} {cache : DenseMap DedupKey CompletedResponse} {oldest : DedupKey}
    {rest : List DedupKey}
    (full : rest.length = capacity) : shrink capacity cache (oldest :: rest) = (cache.erase oldest, rest) := by
  rw [shrink, if_pos (by rw [List.length_cons]; omega), shrink_of_fits (by omega)]

end Serve

/-! ### What the cache holds -/

/-- No acceptance of `k` left the last `capacity` ones after `k` had been accepted again. -/
def Unspoiled (capacity : Nat) (accepted : List DedupKey) (k : DedupKey) : Prop :=
  ∀ pre post, accepted = pre ++ k :: post → capacity ≤ post.length → k ∈ post.drop capacity

theorem unspoiled_of_short {capacity : Nat} {accepted : List DedupKey} (short : accepted.length ≤ capacity)
    (k : DedupKey) :
    Unspoiled capacity accepted k := by
  intro pre post split long
  rw [split, List.length_append, List.length_cons] at short
  omega

/-- One more acceptance spoils the key that leaves the last `capacity` ones. -/
theorem unspoiled_snoc {capacity : Nat} {accepted front rest : List DedupKey} {oldest j k : DedupKey}
    (whole : accepted ++ [j] = front ++ oldest :: rest) (full : rest.length = capacity) :
    Unspoiled capacity (accepted ++ [j]) k ↔ k ≠ oldest ∧ (k = j ∨ Unspoiled capacity accepted k) := by
  constructor
  · intro unspoiled
    constructor
    · rintro rfl
      have left := unspoiled front rest whole (Nat.le_of_eq full.symm)
      rw [List.drop_eq_nil_of_le (Nat.le_of_eq full)] at left
      cases left
    · by_cases last : k = j
      · exact .inl last
      · right
        intro pre post split long
        have later := unspoiled pre (post ++ [j]) (by rw [split]; simp) (by rw [List.length_append]; omega)
        rw [List.drop_append_of_le_length long] at later
        simpa [last] using later
  · rintro ⟨notOldest, kept⟩ pre post split long
    rcases snoc_eq_append_cons split with ⟨-, rfl, rfl⟩ | ⟨back, rfl, earlier⟩
    · have none : rest = [] := List.eq_nil_of_length_eq_zero (by rw [full]; exact Nat.le_zero.mp long)
      rw [none] at whole
      exact absurd (List.singleton_inj.mp (List.append_inj' whole rfl).2) notOldest
    · by_cases enough : capacity ≤ back.length
      · rw [List.drop_append_of_le_length enough]
        rcases kept with rfl | unspoiled
        · simp
        · exact List.mem_append_left _ (unspoiled pre back earlier enough)
      · rw [List.length_append, List.length_singleton] at long
        have same : pre ++ k :: (back ++ [j]) = front ++ oldest :: rest := by rw [← split, whole]
        have tails := (List.append_inj' same (by simp; omega)).2
        exact absurd (List.cons.inj tails).1 notOldest

/-- What a duplicate of `k` finds after the log `pre`. -/
structure Lookup (capacity : Nat) (pre : List Served) (k : DedupKey) (cached : Option CompletedResponse) : Prop where
  seen : k ∈ recent 64 (answeredKeys pre)
  distinct : Deduplicated 64 (answeredKeys pre)
  found : ∀ c, cached = some c ↔ Unspoiled capacity (answeredKeys pre) k ∧ lastAnswer pre k = some c

/-- Ring, cache and order list of a device that has logged `log`. -/
structure Aligned (capacity : Nat) (s : ReliableSession) (log : List Served) : Prop where
  config : s.config.deviceCacheCapacity = capacity
  order : s.completedOrder = recent capacity (answeredKeys log)
  remembers : s.seenRequests.Remembers (answeredKeys log)
  cached : ∀ k c, s.completedCache.find? k = some c ↔
    Unspoiled capacity (answeredKeys log) k ∧ lastAnswer log k = some c
  lookups : ∀ pre k cached post, log = pre ++ .duplicate k cached :: post → Lookup capacity pre k cached

namespace Aligned

variable {capacity : Nat} {s : ReliableSession} {h : List Served}

theorem init (config : Config) : Aligned config.deviceCacheCapacity (.init config) [] where
  config := rfl
  order := List.drop_nil.symm
  remembers := .init 6
  cached k c := by
    constructor
    · intro found
      cases found
    · rintro ⟨-, last⟩
      cases last
  lookups pre k cached post split := by cases pre <;> cases split

/-- A duplicate changes nothing but the log. -/
theorem duplicate (a : Aligned capacity s h) {v : Serving} (nonzero : v.key ≠ 0) (seen : v.key ∈ s.seenRequests.ids) :
    Aligned capacity s (h ++ [.duplicate v.key (s.completedCache.find? v.key)]) := by
  have inRing : v.key ∈ recent 64 (answeredKeys h) := (a.remembers.mem_iff nonzero).mp seen
  constructor
  · exact a.config
  · rw [answeredKeys_duplicate]
    exact a.order
  · rw [answeredKeys_duplicate]
    exact a.remembers
  · rw [answeredKeys_duplicate, lastAnswer_duplicate]
    exact a.cached
  · intro pre k cached post split
    rcases snoc_eq_append_cons split with ⟨rfl, same, -⟩ | ⟨front, -, earlier⟩
    · cases same
      constructor
      · exact inRing
      · exact a.remembers.dedup
      · exact a.cached v.key
    · exact a.lookups pre k cached front earlier

/-- The cache after a new request has been answered and before the order list is shortened. -/
theorem assigned (a : Aligned capacity s h) (v : Serving) (k : DedupKey) (c : CompletedResponse) :
    (s.completedCache.insertOrAssign v.key v.stored).find? k = some c ↔
      (k = v.key ∨ Unspoiled capacity (answeredKeys h) k) ∧
        lastAnswer (h ++ [.answered v.key v.stored]) k = some c := by
  rw [DenseMap.find?_insertOrAssign, lastAnswer_answered]
  by_cases same : k = v.key
  · simp [same]
  · rw [if_neg same, if_neg same, a.cached k c]
    simp [same]

/-- A new key pushes the oldest one out of a full order list, and its response out of the cache. -/
theorem answer (a : Aligned capacity s h) {v : Serving} (new : v.key ∉ s.seenRequests.ids) :
    Aligned capacity (s.serve v).1 (h ++ [.answered v.key v.stored]) := by
  have remembers := (a.remembers.insert new).2
  have keys := answeredKeys_answered h v.key v.stored
  have lookups : ∀ pre k cached post, h ++ [.answered v.key v.stored] = pre ++ .duplicate k cached :: post →
      Lookup capacity pre k cached := by
    intro pre k cached post split
    rcases snoc_eq_append_cons split with ⟨-, other, -⟩ | ⟨front, -, earlier⟩
    · cases other
    · exact a.lookups pre k cached front earlier
  rw [serve_new new, a.config]
  by_cases short : (answeredKeys h).length < capacity
  · have order : s.completedOrder = answeredKeys h := by rw [a.order, recent_of_short (Nat.le_of_lt short)]
    have fits : (answeredKeys h ++ [v.key]).length ≤ capacity := by
      rw [List.length_append, List.length_singleton]
      omega
    rw [order, shrink_of_fits fits]
    constructor
    · exact a.config
    · rw [keys, recent_of_short fits]
    · rw [keys]
      exact remembers
    · intro k c
      rw [keys, a.assigned v k c]
      simp only [unspoiled_of_short fits k, unspoiled_of_short (Nat.le_of_lt short) k, or_true]
    · exact lookups
  · obtain ⟨oldest, rest, split⟩ : ∃ oldest rest, s.completedOrder ++ [v.key] = oldest :: rest :=
      List.exists_cons_of_ne_nil (by simp)
    have size : (s.completedOrder ++ [v.key]).length = capacity + 1 := by
      rw [List.length_append, a.order, length_recent (by omega), List.length_singleton]
    have full : rest.length = capacity := by
      rw [split, List.length_cons] at size
      omega
    have whole : answeredKeys h ++ [v.key] =
        (answeredKeys h).take ((answeredKeys h).length - capacity) ++ oldest :: rest := by
      rw [← split, a.order, ← List.append_assoc, recent, List.take_append_drop]
    rw [split, shrink_of_full full]
    constructor
    · exact a.config
    · rw [keys, whole, List.append_cons, recent_append (Nat.le_of_eq full.symm), recent_of_short (Nat.le_of_eq full)]
    · rw [keys]
      exact remembers
    · intro k c
      rw [keys, unspoiled_snoc whole full, DenseMap.find?_erase]
      by_cases gone : k = oldest
      · simp [gone]
      · rw [if_neg gone, a.assigned v k c]
        simp [gone]
    · exact lookups

theorem step (a : Aligned capacity s h) (v : Serving) (nonzero : v.key ≠ 0) :
    Aligned capacity (server.step s v).1 (h ++ (server.step s v).2) := by
  show Aligned capacity (s.serve v).1 (h ++ (s.serve v).2)
  by_cases seen : v.key ∈ s.seenRequests.ids
  · rw [serve_duplicate seen]
    exact a.duplicate nonzero seen
  · have answered := a.answer seen
    have logged : (s.serve v).2 = [.answered v.key v.stored] := by rw [serve_new seen]
    rw [logged]
    exact answered

theorem run (config : Config) {ops : List Serving} (nonzero : ∀ v ∈ ops, v.key ≠ 0) :
    Aligned config.deviceCacheCapacity (server.exec (.init config) ops) (server.trace (.init config) ops) :=
  server.run_invariant_of (I := fun s h => Aligned config.deviceCacheCapacity s h) (Aligned.init config)
    (fun _ _ v nonzero a => a.step v nonzero) ops nonzero

end Aligned

/-- A key accepted before has a last answer. -/
theorem lastAnswer_of_mem {log : List Served} {k : DedupKey} (member : k ∈ answeredKeys log) :
    ∃ c, lastAnswer log k = some c := by
  obtain ⟨⟨j, c⟩, there, rfl⟩ := List.mem_map.mp member
  have nonempty : (cachings log).filter (fun e => e.1 = j) ≠ [] :=
    List.ne_nil_of_mem (List.mem_filter.mpr ⟨there, decide_eq_true rfl⟩)
  rw [lastAnswer, List.getLast?_eq_some_getLast nonempty]
  exact ⟨_, rfl⟩

namespace Lookup

variable {capacity : Nat} {pre : List Served} {k : DedupKey} {cached : Option CompletedResponse}

/-- A duplicate gets the last answer unless the key is spoiled. -/
theorem answered_iff (found : Lookup capacity pre k cached) :
    (∃ c, cached = some c ∧ lastAnswer pre k = some c) ↔ Unspoiled capacity (answeredKeys pre) k := by
  constructor
  · rintro ⟨c, cached, -⟩
    exact ((found.found c).mp cached).1
  · intro unspoiled
    obtain ⟨c, last⟩ := lastAnswer_of_mem (List.mem_of_mem_drop found.seen)
    exact ⟨c, (found.found c).mpr ⟨unspoiled, last⟩, last⟩

/-- Among 65 acceptances in a row no key comes twice: at a capacity of 64 no key in the ring is spoiled. -/
theorem unspoiled (found : Lookup 64 pre k cached) : Unspoiled 64 (answeredKeys pre) k := by
  intro front post split long
  have seen : k ∈ post := by
    have kept := found.seen
    rw [split, List.append_cons, recent_append long] at kept
    exact List.mem_of_mem_drop kept
  have distinct := found.distinct
  rw [split, ← List.take_append_drop 64 post, ← List.cons_append] at distinct
  have window : (k :: post.take 64).Nodup :=
    distinct.window_nodup (by rw [List.length_cons, List.length_take]; omega)
  rw [← List.take_append_drop 64 post] at seen
  rcases List.mem_append.mp seen with near | far
  · exact absurd near (List.nodup_cons.mp window).1
  · exact far

end Lookup

/-! ### Larger capacities -/

/-- The request with `tx_id` `n`. -/
def serving (n : Nat) : Serving := ⟨0x6103, UInt32.ofNat n, 0x6104, [n.toUInt8]⟩

theorem serving_key_inj {m n : Nat} (hm : m < 2 ^ 32) (hn : n < 2 ^ 32)
    (same : (serving m).key = (serving n).key) : m = n := by
  have txId : UInt32.ofNat m = UInt32.ofNat n := (composeDedupKey_inj same).2
  have value := congrArg UInt32.toNat txId
  rwa [UInt32.toNat_ofNat_of_lt' hm, UInt32.toNat_ofNat_of_lt' hn] at value

theorem serving_key_ne_zero {n : Nat} (pos : 0 < n) (hn : n < 2 ^ 32) : (serving n).key ≠ 0 := by
  apply composeDedupKey_ne_default
  intro zero
  have zero : UInt32.ofNat n = 0 := zero
  have value := congrArg UInt32.toNat zero
  rw [UInt32.toNat_ofNat_of_lt' hn] at value
  have none : (0 : UInt32).toNat = 0 := rfl
  omega

/-- The requests `ns` have been answered, and the order list has not been shortened yet. -/
structure Filled (s : ReliableSession) (ns : List Nat) : Prop where
  bounds : ∀ n ∈ ns, 0 < n ∧ n < 2 ^ 32
  order : s.completedOrder = ns.map fun n => (serving n).key
  remembers : s.seenRequests.Remembers (ns.map fun n => (serving n).key)

namespace Filled

variable {s : ReliableSession} {ns : List Nat}

theorem new (f : Filled s ns) {n : Nat} (pos : 0 < n) (small : n < 2 ^ 32) (fresh : n ∉ recent 64 ns) :
    (serving n).key ∉ s.seenRequests.ids := by
  rw [f.remembers.mem_iff (serving_key_ne_zero pos small), recent, ← List.map_drop]
  intro member
  obtain ⟨m, old, same⟩ := List.mem_map.mp member
  obtain rfl := serving_key_inj (f.bounds m (List.mem_of_mem_drop old)).2 small same
  rw [List.length_map] at old
  exact fresh old

theorem serve (f : Filled s ns) {n : Nat} (pos : 0 < n) (small : n < 2 ^ 32) (fresh : n ∉ recent 64 ns)
    (room : ns.length < s.config.deviceCacheCapacity) :
    Filled (s.serve (serving n)).1 (ns ++ [n]) ∧ (s.serve (serving n)).1.config = s.config := by
  have new := f.new pos small fresh
  have fits : (s.completedOrder ++ [(serving n).key]).length ≤ s.config.deviceCacheCapacity := by
    rw [f.order, List.length_append, List.length_map, List.length_singleton]
    exact room
  rw [serve_new new, shrink_of_fits fits]
  refine ⟨⟨?_, ?_, ?_⟩, rfl⟩
  · intro m member
    rcases List.mem_append.mp member with old | last
    · exact f.bounds m old
    · rw [List.mem_singleton.mp last]
      exact ⟨pos, small⟩
  · rw [List.map_append, ← f.order]
    rfl
  · rw [List.map_append]
    exact (f.remembers.insert new).2

/-- Requests that are new whenever they come. -/
theorem run (config : Config) (ns : List Nat) (bounds : ∀ n ∈ ns, 0 < n ∧ n < 2 ^ 32)
    (fresh : ∀ pre n post, ns = pre ++ n :: post → n ∉ recent 64 pre) (room : ns.length ≤ config.deviceCacheCapacity) :
    Filled (server.exec (.init config) (ns.map serving)) ns ∧
      (server.exec (.init config) (ns.map serving)).config.deviceCacheCapacity = config.deviceCacheCapacity := by
  induction ns using List.reverseRecOn with
  | nil =>
    constructor
    · constructor
      · intro n member
        cases member
      · rfl
      · exact .init 6
    · rfl
  | append_singleton ns n ih =>
    rw [List.length_append, List.length_singleton] at room
    obtain ⟨filled, capacity⟩ := ih (fun m member => bounds m (List.mem_append_left _ member))
      (fun pre m post split => fresh pre m (post ++ [n]) (by rw [split]; simp)) (by omega)
    have last := bounds n (by simp)
    have next := filled.serve last.1 last.2 (fresh ns n [] rfl) (by omega)
    rw [List.map_append, List.map_cons, List.map_nil, server.exec_snoc]
    refine ⟨next.1, ?_⟩
    have same : (server.step (server.exec (.init config) (ns.map serving)) (serving n)).1.config =
        (server.exec (.init config) (ns.map serving)).config := next.2
    rw [same, capacity]

end Filled

/-- The request 1, and then 65 others again and again. -/
def aging (others : Nat) : List Nat := 1 :: (List.range others).map fun i => 2 + i % 65

theorem aging_bounds {others n : Nat} (member : n ∈ aging others) : 0 < n ∧ n < 2 ^ 32 := by
  rcases List.mem_cons.mp member with rfl | later
  · omega
  · obtain ⟨i, -, rfl⟩ := List.mem_map.mp later
    omega

/-- An entry of the last 64 of a long history is one of the others. -/
theorem mem_recent_aging {others n : Nat} (member : n ∈ recent 64 (aging others)) :
    (n = 1 ∧ others < 64) ∨ ∃ i, i < others ∧ others ≤ i + 64 ∧ n = 2 + i % 65 := by
  obtain ⟨j, bound, rfl⟩ := List.mem_iff_getElem.mp member
  simp only [recent, aging, List.length_drop, List.length_cons, List.length_map, List.length_range] at bound
  simp only [recent, aging, List.getElem_drop, List.length_cons, List.length_map, List.length_range]
  rcases Nat.eq_zero_or_pos (others + 1 - 64 + j) with zero | pos
  · left
    simp only [zero, List.getElem_cons_zero, true_and]
    omega
  · right
    refine ⟨others + 1 - 64 + j - 1, by omega, by omega, ?_⟩
    obtain ⟨i, at_⟩ : ∃ i, others + 1 - 64 + j = i + 1 := ⟨others + 1 - 64 + j - 1, by omega⟩
    simp only [at_, List.getElem_cons_succ, List.getElem_map, List.getElem_range, Nat.add_sub_cancel]

theorem aging_fresh {others : Nat} {pre post : List Nat} {n : Nat} (split : aging others = pre ++ n :: post) :
    n ∉ recent 64 pre := by
  intro member
  cases pre with
  | nil => cases member
  | cons first front =>
    obtain ⟨rfl, rest⟩ := List.cons.inj split
    have rest : (List.range others).map (fun i => 2 + i % 65) = front ++ n :: post := rest
    have place : front.length < others := by
      have := congrArg List.length rest
      simp only [List.length_map, List.length_range, List.length_append, List.length_cons] at this
      omega
    have front_eq : 1 :: front = aging front.length := by
      have taken := congrArg (List.take front.length) rest
      rw [List.take_left, ← List.map_take, List.take_range, Nat.min_eq_left (by omega)] at taken
      rw [aging, taken]
    have here : n = 2 + front.length % 65 := by
      have at_ := congrArg (fun l : List Nat => l[front.length]?) rest
      simpa [place] using at_.symm
    rw [front_eq] at member
    rcases mem_recent_aging member with ⟨one, -⟩ | ⟨i, before, near, same⟩
    · omega
    · omega

theorem aging_nonzero (others : Nat) : ∀ v ∈ (aging others ++ [1, 1]).map serving, v.key ≠ 0 := by
  intro v member
  obtain ⟨n, there, rfl⟩ := List.mem_map.mp member
  have bounds : 0 < n ∧ n < 2 ^ 32 := by
    rcases List.mem_append.mp there with front | last
    · exact aging_bounds front
    · have : n = 1 := by simpa using last
      omega
  exact serving_key_ne_zero bounds.1 bounds.2

/-- With a capacity above 64 a duplicate can find no answer. -/
theorem aged_duplicate {config : Config} (large : 64 < config.deviceCacheCapacity) :
    ¬ AnswersBack (server.trace (.init config) ((aging (config.deviceCacheCapacity - 1) ++ [1, 1]).map serving)) := by
  have size : (aging (config.deviceCacheCapacity - 1)).length = config.deviceCacheCapacity := by
    simp only [aging, List.length_cons, List.length_map, List.length_range]
    omega
  obtain ⟨filled, capacity⟩ := Filled.run config _ (fun _ => aging_bounds) (fun _ _ _ => aging_fresh)
      (Nat.le_of_eq size)
  have again : (1 : Nat) ∉ recent 64 (aging (config.deviceCacheCapacity - 1)) := by
    intro member
    rcases mem_recent_aging member with ⟨-, few⟩ | ⟨i, -, -, same⟩ <;> omega
  have new := filled.new (by omega) (by omega) again
  have ops : (aging (config.deviceCacheCapacity - 1) ++ [1, 1]).map serving =
      (aging (config.deviceCacheCapacity - 1)).map serving ++ [serving 1] ++ [serving 1] := by simp
  rw [ops, server.trace_snoc, server.exec_snoc]
  generalize server.exec (.init config) _ = s at filled capacity new ⊢
  generalize server.trace (.init config) _ = log
  -- the second answer for request 1 stands at both ends of the order list
  have order : s.completedOrder ++ [(serving 1).key] =
      (serving 1).key :: ((List.range (config.deviceCacheCapacity - 1)).map (fun i => (serving (2 + i % 65)).key) ++
        [(serving 1).key]) := by
    rw [filled.order, aging, List.map_cons, List.map_map]
    rfl
  have full : ((List.range (config.deviceCacheCapacity - 1)).map (fun i => (serving (2 + i % 65)).key) ++
      [(serving 1).key]).length = s.config.deviceCacheCapacity := by
    rw [capacity, List.length_append, List.length_map, List.length_range, List.length_singleton]
    omega
  have served := serve_new new
  rw [order, shrink_of_full full] at served
  have seen : (serving 1).key ∈ (s.serve (serving 1)).1.seenRequests.ids := by
    rw [served, ← IdRingBuffer.mem_queue, IdRingBuffer.queue_insert new]
    simp
  have lost : (s.serve (serving 1)).1.completedCache.find? (serving 1).key = none := by
    rw [served]
    exact DenseMap.find?_erase_self _ _
  intro back
  have logged : (server.step (server.step s (serving 1)).1 (serving 1)).2 = [.duplicate (serving 1).key none] := by
    show ((s.serve (serving 1)).1.serve (serving 1)).2 = _
    rw [serve_duplicate seen, lost]
  rw [logged] at back
  obtain ⟨c, none, -⟩ := back log _ none [] rfl
  cases none

/-- Every duplicate of the run finds its key unspoiled. -/
def NoneSpoiled (capacity : Nat) (log : List Served) : Prop :=
  ∀ pre k cached post, log = pre ++ .duplicate k cached :: post → Unspoiled capacity (answeredKeys pre) k

/-- **A duplicate gets its answer back.** In every run if the capacity is 64. If it is larger, in
the runs in which no acceptance of a key leaves the order list after the key has been accepted
again and before the duplicate comes; and there are runs that do not meet this. -/
theorem answers_back_iff (config : Config) (enough : 64 ≤ config.deviceCacheCapacity) :
    ((∀ ops : List Serving, (∀ v ∈ ops, v.key ≠ 0) → AnswersBack (server.trace (.init config) ops)) ↔
      config.deviceCacheCapacity = 64) ∧
    ∀ ops : List Serving, (∀ v ∈ ops, v.key ≠ 0) →
      (AnswersBack (server.trace (.init config) ops) ↔
        NoneSpoiled config.deviceCacheCapacity (server.trace (.init config) ops)) := by
  have each : ∀ ops : List Serving, (∀ v ∈ ops, v.key ≠ 0) →
      (AnswersBack (server.trace (.init config) ops) ↔
        NoneSpoiled config.deviceCacheCapacity (server.trace (.init config) ops)) := by
    intro ops nonzero
    have lookups := (Aligned.run config nonzero).lookups
    constructor
    · intro back pre k cached post split
      exact (lookups pre k cached post split).answered_iff.mp (back pre k cached post split)
    · intro none pre k cached post split
      exact (lookups pre k cached post split).answered_iff.mpr (none pre k cached post split)
  refine ⟨⟨?_, ?_⟩, each⟩
  · intro always
    apply Nat.le_antisymm _ enough
    apply Nat.le_of_not_lt
    intro large
    exact aged_duplicate large (always _ (aging_nonzero _))
  · intro capacity ops nonzero
    rw [each ops nonzero, capacity]
    intro pre k cached post split
    have found := (Aligned.run config nonzero).lookups pre k cached post split
    rw [capacity] at found
    exact found.unspoiled

/-- A retransmission that reaches a device with the default capacity is answered. -/
theorem answers_back_twice : AnswersBack (server.trace (.init {}) ([1, 2, 1].map serving)) :=
  (answers_back_iff {} (by decide)).1.mpr rfl _ (by decide)

/-- With a capacity of 65, the 66th new request can be the first one again: answering it drops the
answer just cached, and its retransmission gets none. -/
theorem aged_answer_is_lost :
    ¬ AnswersBack (server.trace (.init { deviceCacheCapacity := 65 }) ((aging 64 ++ [1, 1]).map serving)) :=
  aged_duplicate (by decide)

end FloridUsb.Session
