import Mathlib.Data.List.Perm.Subperm
import FloridUsb.Session.Run

/-!
# The bound of the response cache

The order list lists every key of the cache and is never longer than the capacity, whatever has
been cached twice, evicted or reset (`Listed`). A key may stand in it several times, and the
oldest place takes the response away, so the list may hold keys that the cache has lost. What the
cache still holds for a key is the latest response cached for it since the last reset.
-/

namespace FloridUsb.Session
set_option autoImplicit false

open Lib ReliableSession

/-- The latest response cached for a command and a transaction, after one more operation. -/
def Op.caches (cmd : UInt16) (txId : TransactionId) (latest : Option CompletedResponse) :
    Op → Option CompletedResponse
  | .cacheResponse c t responseCmd responseBytes =>
    if c = cmd ∧ t = txId then some ⟨responseCmd, responseBytes⟩ else latest
  | .resetDeviceState => none
  | _ => latest

/-- The latest response cached for a command and a transaction since the last reset. -/
def latestCached (cmd : UInt16) (txId : TransactionId) (ops : List Op) : Option CompletedResponse :=
  ops.foldl (Op.caches cmd txId) none

theorem latestCached_snoc (cmd : UInt16) (txId : TransactionId) (ops : List Op) (o : Op) :
    latestCached cmd txId (ops ++ [o]) = o.caches cmd txId (latestCached cmd txId ops) :=
  List.foldl_append

/-! ### Shrinking -/

section Shrink

variable {capacity : Nat} {cache : DenseMap DedupKey CompletedResponse} {order : List DedupKey}

theorem length_shrink_le (capacity : Nat) (cache : DenseMap DedupKey CompletedResponse) (order : List DedupKey) :
    (shrink capacity cache order).2.length ≤ capacity := by
  induction order generalizing cache with
  | nil => exact Nat.zero_le _
  | cons oldest rest ih =>
    rw [shrink]
    split
    · exact ih _
    · rename_i fits
      exact Nat.le_of_not_lt fits

/-- A key leaves the cache with the first of its places in the order list. -/
theorem shrink_listed (listed : ∀ k c, cache.find? k = some c → k ∈ order) {k : DedupKey} {c : CompletedResponse}
    (found : (shrink capacity cache order).1.find? k = some c) : k ∈ (shrink capacity cache order).2 := by
  induction order generalizing cache with
  | nil => exact listed k c found
  | cons oldest rest ih =>
    rw [shrink] at found ⊢
    split at found
    · rename_i full
      rw [if_pos full]
      refine ih (fun j d there => ?_) found
      rw [DenseMap.find?_erase] at there
      split at there
      · cases there
      · rename_i other
        exact List.mem_of_ne_of_mem other (listed j d there)
    · rename_i fits
      rw [if_neg fits]
      exact listed k c found

end Shrink

/-! ### The cache and its order list -/

/-- The device side after the operations `ops`. -/
structure Listed (s : ReliableSession) (ops : List Op) : Prop where
  bounded : s.completedOrder.length ≤ s.config.deviceCacheCapacity
  listed : ∀ k c, s.completedCache.find? k = some c → k ∈ s.completedOrder
  latest : ∀ cmd t c, s.completedCache.find? (composeDedupKey cmd t) = some c → latestCached cmd t ops = some c

namespace Listed

variable {s : ReliableSession} {ops : List Op}

theorem init (config : Config) : Listed (.init config) [] where
  bounded := Nat.zero_le _
  listed k c found := by cases found
  latest cmd t c found := by cases found

/-- Operations that cache nothing and reset nothing. -/
theorem idle (l : Listed s ops) {s' : ReliableSession} {o : Op} (config : s'.config = s.config)
    (cache : s'.completedCache = s.completedCache) (order : s'.completedOrder = s.completedOrder)
    (quiet : ∀ cmd t latest, o.caches cmd t latest = latest) : Listed s' (ops ++ [o]) := by
  constructor
  · rw [order, config]
    exact l.bounded
  · rw [cache, order]
    exact l.listed
  · intro cmd t c found
    rw [latestCached_snoc, quiet]
    rw [cache] at found
    exact l.latest cmd t c found

theorem cached (l : Listed s ops) (cmd : UInt16) (t : TransactionId) (responseCmd : UInt16) {bytes : List UInt8}
    (small : bytes.length ≤ MAX_PACKET_SIZE) :
    Listed (s.cacheResponse cmd t responseCmd bytes) (ops ++ [.cacheResponse cmd t responseCmd bytes]) := by
  constructor
  · exact length_shrink_le _ _ _
  · intro k c found
    apply shrink_listed _ found
    intro j d there
    rw [DenseMap.find?_insertOrAssign] at there
    split at there
    · rename_i same
      rw [same]
      exact List.mem_append_right _ (List.mem_singleton.mpr rfl)
    · exact List.mem_append_left _ (l.listed j d there)
  · intro cmd' t' c found
    rw [latestCached_snoc, Op.caches]
    -- the packed key tells the two pairs apart
    by_cases same : cmd = cmd' ∧ t = t'
    · obtain ⟨rfl, rfl⟩ := same
      rw [if_pos ⟨rfl, rfl⟩]
      have stored := find?_shrink found
      rw [DenseMap.find?_insertOrAssign_self, List.take_of_length_le small] at stored
      exact stored
    · rw [if_neg same]
      rcases cacheResponse_cached found with ⟨key, -⟩ | ⟨-, before⟩
      · obtain ⟨rfl, rfl⟩ := composeDedupKey_inj key
        exact absurd ⟨rfl, rfl⟩ same
      · exact l.latest cmd' t' c before

theorem step (l : Listed s ops) {o : Op}
    (small : ∀ cmd t responseCmd bytes, o = .cacheResponse cmd t responseCmd bytes → bytes.length ≤ MAX_PACKET_SIZE) :
    Listed (session.step s o).1 (ops ++ [o]) := by
  cases o with
  | cacheResponse cmd t responseCmd bytes => exact l.cached cmd t responseCmd (small cmd t responseCmd bytes rfl)
  | resetDeviceState =>
    constructor
    · exact Nat.zero_le _
    · intro k c found
      cases found
    · intro cmd t c found
      cases found
  | onRequest cmd t =>
    apply l.idle (step_config s _) _ _ fun _ _ _ => rfl
    · show (s.onRequest cmd t).1.completedCache = _
      rw [s.onRequest_eq cmd t]
    · show (s.onRequest cmd t).1.completedOrder = _
      rw [s.onRequest_eq cmd t]
  | registerPending now r | onAck now t | onResponse cmd t bytes | poll now clock reentry | nextOutbound now =>
    exact l.idle (step_config s _) (step_device rfl).1 (step_completedOrder rfl) fun _ _ _ => rfl

theorem run (config : Config) (ops : List Op)
    (small : ∀ cmd t responseCmd bytes, .cacheResponse cmd t responseCmd bytes ∈ ops →
      bytes.length ≤ MAX_PACKET_SIZE) :
    Listed (session.exec (.init config) ops) ops := by
  induction ops using List.reverseRecOn with
  | nil => exact init config
  | append_singleton ops o ih =>
    rw [session.exec_snoc]
    apply (ih fun cmd t responseCmd bytes member =>
      small cmd t responseCmd bytes (List.mem_append_left _ member)).step
    rintro cmd t responseCmd bytes rfl
    exact small cmd t responseCmd bytes (by simp)

/-- The keys of the cache are distinct and listed, so there are no more of them than places. -/
theorem entries_le (l : Listed s ops) : s.completedCache.entries.length ≤ s.completedOrder.length := by
  rw [← List.length_map Prod.fst]
  apply (s.completedCache.nodup.subperm _).length_le
  intro k member
  obtain ⟨⟨j, c⟩, there, rfl⟩ := List.mem_map.mp member
  exact l.listed j c (DenseMap.find?_eq_some.mpr there)

end Listed

/-- **The response cache is bounded and keeps answers apart.** After any operations, with
responses of at most 256 bytes, the order list has at most `device_cache_capacity` places and
lists every key of the cache, the cache has at most as many entries, and a cached response that
`on_request` returns is the latest one cached for the same command and transaction since the last
reset. -/
theorem cache_bounded (config : Config) (ops : List Op)
    (small : ∀ cmd t responseCmd bytes, .cacheResponse cmd t responseCmd bytes ∈ ops →
      bytes.length ≤ MAX_PACKET_SIZE) :
    let s := session.exec (.init config) ops
    s.completedOrder.length ≤ config.deviceCacheCapacity ∧
      (∀ k c, s.completedCache.find? k = some c → k ∈ s.completedOrder) ∧
      s.completedCache.entries.length ≤ config.deviceCacheCapacity ∧
      ∀ cmd t c, (s.onRequest cmd t).2.cached = some c → latestCached cmd t ops = some c := by
  intro s
  have l : Listed s ops := .run config ops small
  have bounded : s.completedOrder.length ≤ config.deviceCacheCapacity := by
    have capacity : s.config.deviceCacheCapacity = config.deviceCacheCapacity := by
      rw [exec_config]
      rfl
    exact capacity ▸ l.bounded
  refine ⟨bounded, l.listed, Nat.le_trans l.entries_le bounded, ?_⟩
  intro cmd t c cached
  exact l.latest cmd t c (onRequest_cached cached)

/-- A capacity of 2, a request answered twice, and another one answered between. -/
theorem cache_bounded_twice :
    let ops : List Op := [.onRequest 0x6103 7, .cacheResponse 0x6103 7 0x6104 [1], .onRequest 0x6105 7,
      .cacheResponse 0x6105 7 0x6106 [2], .cacheResponse 0x6105 7 0x6106 [3]]
    let s := session.exec (.init { deviceCacheCapacity := 2 }) ops
    s.completedOrder.length ≤ 2 ∧ (s.onRequest 0x6105 7).2.cached = some ⟨0x6106, [3]⟩ ∧
      latestCached 0x6105 7 ops = some ⟨0x6106, [3]⟩ := by
  intro ops s
  have small : ∀ cmd t responseCmd bytes, .cacheResponse cmd t responseCmd bytes ∈ ops →
      bytes.length ≤ MAX_PACKET_SIZE := by
    intro cmd t responseCmd bytes member
    simp only [ops, List.mem_cons, reduceCtorEq, Op.cacheResponse.injEq, List.not_mem_nil, or_false, false_or] at member
    rcases member with ⟨-, -, -, rfl⟩ | ⟨-, -, -, rfl⟩ | ⟨-, -, -, rfl⟩ <;> decide
  have cached : (s.onRequest 0x6105 7).2.cached = some ⟨0x6106, [3]⟩ := by decide
  obtain ⟨bounded, -, -, answers⟩ := cache_bounded { deviceCacheCapacity := 2 } ops small
  exact ⟨bounded, cached, answers 0x6105 7 _ cached⟩

end FloridUsb.Session
