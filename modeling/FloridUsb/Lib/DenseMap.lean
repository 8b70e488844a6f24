import Mathlib.Data.List.Perm.Basic
import Mathlib.Data.List.Nodup
import Mathlib.Algebra.GroupWithZero.Nat

/-!
# Dense maps: a map as its entry array

A dense hash map keeps its entries in one contiguous array. An insertion of a new
key appends, an assignment writes in place, and an erasure moves the last entry
into the hole. Iteration follows the array, and `sweep` is the erase-while-iterating
loop: after an erasure the same position is visited again. The hash table beside the
array only speeds the lookup up and is not part of the value.

Every operation is described by a permutation of the entry array, and with distinct
keys a lookup does not depend on the order of the array.
-/

namespace FloridUsb.Lib
set_option autoImplicit false

section Arrays

variable {K V σ : Type}

/-- The array behind an erased first entry: the last entry moves into the hole. -/
def fillHole (rest : List (K × V)) : List (K × V) :=
  match rest.getLast? with
  | none => []
  | some last => last :: rest.dropLast

theorem fillHole_perm (rest : List (K × V)) : (fillHole rest).Perm rest := by
  unfold fillHole
  cases h : rest.getLast? with
  | none => simp [List.getLast?_eq_none_iff.mp h]
  | some last =>
    have split : rest.dropLast ++ [last] = rest := List.dropLast_append_getLast? last (by simp [h])
    conv => rhs; rw [← split]
    exact (List.perm_append_singleton last rest.dropLast).symm

/-- Erase the entry of key `k`, by a move of the last entry into its place. -/
def swapErase [DecidableEq K] (k : K) : List (K × V) → List (K × V)
  | [] => []
  | e :: rest => if e.1 = k then fillHole rest else e :: swapErase k rest

/-- Write `v` at key `k`: in place if the key is present, else at the end. -/
def assign [DecidableEq K] (k : K) (v : V) : List (K × V) → List (K × V)
  | [] => [(k, v)]
  | e :: rest => if e.1 = k then (k, v) :: rest else e :: assign k v rest

/-- The value at key `k`. -/
def lookup [DecidableEq K] (k : K) : List (K × V) → Option V
  | [] => none
  | e :: rest => if e.1 = k then some e.2 else lookup k rest

/-- Iterate over an array of at most `n` entries. `f` decides each visited entry: a new
value to keep it with, or its erasure, which puts the last entry in its place. -/
def sweepFrom (f : σ → K × V → Option V × σ) : Nat → List (K × V) → σ → List (K × V) × σ
  | 0, _, s => ([], s)
  | _ + 1, [], s => ([], s)
  | n + 1, e :: rest, s =>
    match f s e with
    | (some v, s') => ((e.1, v) :: (sweepFrom f n rest s').1, (sweepFrom f n rest s').2)
    | (none, s') => sweepFrom f n (fillHole rest) s'

theorem lookup_eq_none_iff [DecidableEq K] {k : K} {l : List (K × V)} :
    lookup k l = none ↔ k ∉ l.map Prod.fst := by
  induction l with
  | nil => simp [lookup]
  | cons e rest ih =>
    by_cases h : e.1 = k
    · simp [lookup, h]
    · simp only [lookup, h, if_false, ih, List.map_cons, List.mem_cons, not_or]
      exact ⟨fun hn => ⟨fun he => h he.symm, hn⟩, fun hn => hn.2⟩

theorem mem_of_lookup [DecidableEq K] {k : K} {v : V} {l : List (K × V)}
    (h : lookup k l = some v) : (k, v) ∈ l := by
  induction l with
  | nil => cases h
  | cons e rest ih =>
    by_cases he : e.1 = k
    · rw [lookup, if_pos he] at h
      obtain ⟨a, b⟩ := e
      cases he; cases h
      exact List.mem_cons_self
    · rw [lookup, if_neg he] at h
      exact List.mem_cons_of_mem _ (ih h)

theorem lookup_of_mem [DecidableEq K] {k : K} {v : V} {l : List (K × V)}
    (distinct : (l.map Prod.fst).Nodup) (h : (k, v) ∈ l) : lookup k l = some v := by
  induction l with
  | nil => cases h
  | cons e rest ih =>
    have unique := List.nodup_cons.mp distinct
    rcases List.mem_cons.mp h with rfl | tail
    · simp [lookup]
    · have ne : e.1 ≠ k := by
        intro he
        exact unique.1 (he ▸ List.mem_map_of_mem tail)
      rw [lookup, if_neg ne]
      exact ih unique.2 tail

theorem swapErase_of_absent [DecidableEq K] {k : K} {l : List (K × V)}
    (h : k ∉ l.map Prod.fst) : swapErase k l = l := by
  induction l with
  | nil => rfl
  | cons e rest ih =>
    simp only [List.map_cons, List.mem_cons, not_or] at h
    rw [swapErase, if_neg (fun he => h.1 he.symm), ih h.2]

theorem swapErase_perm [DecidableEq K] {k : K} {v : V} {l : List (K × V)}
    (h : lookup k l = some v) : l.Perm ((k, v) :: swapErase k l) := by
  induction l with
  | nil => cases h
  | cons e rest ih =>
    by_cases he : e.1 = k
    · rw [lookup, if_pos he] at h
      obtain ⟨a, b⟩ := e
      cases he; cases h
      rw [swapErase, if_pos rfl]
      exact (fillHole_perm rest).symm.cons _
    · rw [lookup, if_neg he] at h
      rw [swapErase, if_neg he]
      exact ((ih h).cons e).trans (List.Perm.swap ..)

theorem assign_perm [DecidableEq K] (k : K) (v : V) (l : List (K × V)) :
    (assign k v l).Perm ((k, v) :: swapErase k l) := by
  induction l with
  | nil => exact List.Perm.refl _
  | cons e rest ih =>
    by_cases he : e.1 = k
    · rw [assign, if_pos he, swapErase, if_pos he]
      exact (fillHole_perm rest).symm.cons _
    · rw [assign, if_neg he, swapErase, if_neg he]
      exact (ih.cons e).trans (List.Perm.swap ..)

theorem swapErase_keys [DecidableEq K] {k : K} {l : List (K × V)}
    (distinct : (l.map Prod.fst).Nodup) :
    ((swapErase k l).map Prod.fst).Nodup ∧ k ∉ (swapErase k l).map Prod.fst := by
  cases h : lookup k l with
  | none =>
    have absent := lookup_eq_none_iff.mp h
    rw [swapErase_of_absent absent]
    exact ⟨distinct, absent⟩
  | some v =>
    have perm := (swapErase_perm h).map Prod.fst
    have unique := List.nodup_cons.mp (perm.nodup_iff.mp distinct)
    exact ⟨unique.2, unique.1⟩

/-- What a sweep does: every entry is visited once, in some order, each with the
accumulator of its turn, and the kept entries are those the loop body kept. -/
theorem sweepFrom_visits (f : σ → K × V → Option V × σ) (n : Nat) (l : List (K × V)) (s : σ)
    (bound : l.length ≤ n) :
    ∃ visits : List (σ × (K × V)), (visits.map Prod.snd).Perm l ∧
      (sweepFrom f n l s).1 = visits.filterMap (fun d => (f d.1 d.2).1.map (Prod.mk d.2.1)) ∧
      (sweepFrom f n l s).2 = (visits.map Prod.snd).foldl (fun s e => (f s e).2) s := by
  induction n generalizing l s with
  | zero =>
    have : l = [] := List.length_eq_zero_iff.mp (by omega)
    subst this
    exact ⟨[], List.Perm.refl _, rfl, rfl⟩
  | succ n ih =>
    cases l with
    | nil => exact ⟨[], List.Perm.refl _, rfl, rfl⟩
    | cons e rest =>
      simp only [List.length_cons] at bound
      rcases hf : f s e with ⟨_ | v, s'⟩
      · obtain ⟨visits, perm, kept, acc⟩ :=
          ih (fillHole rest) s' (by rw [(fillHole_perm rest).length_eq]; omega)
        refine ⟨(s, e) :: visits, (perm.trans (fillHole_perm rest)).cons e, ?_, ?_⟩
        · simp only [sweepFrom, hf, kept, List.filterMap_cons, Option.map_none]
        · simp only [sweepFrom, hf, acc, List.map_cons, List.foldl_cons]
      · obtain ⟨visits, perm, kept, acc⟩ := ih rest s' (by omega)
        refine ⟨(s, e) :: visits, perm.cons e, ?_, ?_⟩
        · simp only [sweepFrom, hf, kept, List.filterMap_cons, Option.map_some]
        · simp only [sweepFrom, hf, acc, List.map_cons, List.foldl_cons]

theorem sweepFrom_keys (f : σ → K × V → Option V × σ) (l : List (K × V)) (s : σ)
    (distinct : (l.map Prod.fst).Nodup) : ((sweepFrom f l.length l s).1.map Prod.fst).Nodup := by
  obtain ⟨visits, perm, kept, -⟩ := sweepFrom_visits f l.length l s (Nat.le_refl _)
  have keys : (visits.map fun d => d.2.1).Nodup := by
    have := (perm.map Prod.fst).nodup_iff.mpr distinct
    rwa [List.map_map] at this
  have sub : ((sweepFrom f l.length l s).1.map Prod.fst).Sublist (visits.map fun d => d.2.1) := by
    rw [kept]
    clear kept perm keys
    induction visits with
    | nil => exact List.Sublist.slnil
    | cons d rest ih =>
      rw [List.filterMap_cons, List.map_cons]
      cases (f d.1 d.2).1 with
      | none => exact ih.cons _
      | some v => exact ih.cons_cons _
  exact sub.nodup keys

theorem sweepFrom_keep {f : σ → K × V → Option V × σ} {n : Nat} {l : List (K × V)} {s : σ} (bound : l.length ≤ n)
    (keeps : ∀ e ∈ l, f s e = (some e.2, s)) : sweepFrom f n l s = (l, s) := by
  induction l generalizing n with
  | nil => cases n <;> rfl
  | cons e rest ih =>
    cases n with
    | zero => cases bound
    | succ n =>
      rw [List.length_cons] at bound
      have later := ih (Nat.le_of_succ_le_succ bound) fun d member => keeps d (List.mem_cons_of_mem _ member)
      simp only [sweepFrom, keeps e List.mem_cons_self, later]

end Arrays

/-- A map from `K` to `V`: an entry array with distinct keys. -/
structure DenseMap (K V : Type) where
  entries : List (K × V)
  nodup : (entries.map Prod.fst).Nodup

namespace DenseMap

variable {K V σ : Type}

def empty : DenseMap K V := ⟨[], List.nodup_nil⟩

instance : Inhabited (DenseMap K V) := ⟨empty⟩

/-- The erase-while-iterating loop over the whole map. -/
def sweep (f : σ → K × V → Option V × σ) (m : DenseMap K V) (s : σ) : DenseMap K V × σ :=
  (⟨(sweepFrom f m.entries.length m.entries s).1, sweepFrom_keys f m.entries s m.nodup⟩,
    (sweepFrom f m.entries.length m.entries s).2)

/-- The sweep of a body whose decision does not read the accumulator. -/
theorem sweep_spec {f : σ → K × V → Option V × σ} {g : K × V → Option V}
    (decides : ∀ s e, (f s e).1 = g e) (m : DenseMap K V) (s : σ) :
    ∃ visits : List (K × V), visits.Perm m.entries ∧
      (m.sweep f s).1.entries = visits.filterMap (fun e => (g e).map (Prod.mk e.1)) ∧
      (m.sweep f s).2 = visits.foldl (fun s e => (f s e).2) s := by
  obtain ⟨visits, perm, kept, acc⟩ := sweepFrom_visits f m.entries.length m.entries s (Nat.le_refl _)
  refine ⟨visits.map Prod.snd, perm, ?_, acc⟩
  rw [List.filterMap_map]
  simp only [sweep, kept, decides]
  rfl

/-- A sweep whose body keeps every entry changes nothing. -/
theorem sweep_keep {f : σ → K × V → Option V × σ} {m : DenseMap K V} {s : σ}
    (keeps : ∀ e ∈ m.entries, f s e = (some e.2, s)) : m.sweep f s = (m, s) := by
  have same := sweepFrom_keep (Nat.le_refl _) keeps
  simp only [sweep, same]

variable [DecidableEq K]

def find? (m : DenseMap K V) (k : K) : Option V := lookup k m.entries

def insertOrAssign (m : DenseMap K V) (k : K) (v : V) : DenseMap K V where
  entries := assign k v m.entries
  nodup := by
    have keys := swapErase_keys (k := k) m.nodup
    exact ((assign_perm k v m.entries).map Prod.fst).nodup_iff.mpr (List.nodup_cons.mpr ⟨keys.2, keys.1⟩)

def erase (m : DenseMap K V) (k : K) : DenseMap K V where
  entries := swapErase k m.entries
  nodup := (swapErase_keys m.nodup).1

variable {m : DenseMap K V} {k j : K} {v w : V}

theorem find?_eq_some : m.find? k = some v ↔ (k, v) ∈ m.entries :=
  ⟨mem_of_lookup, lookup_of_mem m.nodup⟩

theorem find?_eq_none : m.find? k = none ↔ ∀ v, (k, v) ∉ m.entries := by
  rw [find?, lookup_eq_none_iff]
  simp

@[simp] theorem find?_empty (k : K) : (empty : DenseMap K V).find? k = none := rfl

theorem insertOrAssign_perm (m : DenseMap K V) (k : K) (v : V) :
    (m.insertOrAssign k v).entries.Perm ((k, v) :: (m.erase k).entries) :=
  assign_perm k v m.entries

theorem erase_perm (h : m.find? k = some v) : m.entries.Perm ((k, v) :: (m.erase k).entries) :=
  swapErase_perm h

theorem erase_entries_of_none (h : m.find? k = none) : (m.erase k).entries = m.entries :=
  swapErase_of_absent (lookup_eq_none_iff.mp h)

@[simp] theorem find?_erase_self (m : DenseMap K V) (k : K) : (m.erase k).find? k = none :=
  lookup_eq_none_iff.mpr (swapErase_keys m.nodup).2

theorem mem_erase_iff (hne : j ≠ k) : (j, w) ∈ (m.erase k).entries ↔ (j, w) ∈ m.entries := by
  cases h : m.find? k with
  | none => rw [erase_entries_of_none h]
  | some v =>
    rw [(erase_perm h).mem_iff, List.mem_cons, Prod.mk.injEq]
    exact ⟨.inr, fun hm => hm.resolve_left fun he => hne he.1⟩

theorem find?_erase_ne (m : DenseMap K V) (hne : j ≠ k) : (m.erase k).find? j = m.find? j := by
  apply Option.ext
  intro w
  rw [find?_eq_some, find?_eq_some, mem_erase_iff hne]

@[simp] theorem find?_insertOrAssign_self (m : DenseMap K V) (k : K) (v : V) :
    (m.insertOrAssign k v).find? k = some v :=
  find?_eq_some.mpr ((insertOrAssign_perm m k v).mem_iff.mpr List.mem_cons_self)

theorem find?_insertOrAssign_ne (m : DenseMap K V) (v : V) (hne : j ≠ k) :
    (m.insertOrAssign k v).find? j = m.find? j := by
  apply Option.ext
  intro w
  rw [find?_eq_some, find?_eq_some, (insertOrAssign_perm m k v).mem_iff, List.mem_cons, mem_erase_iff hne,
    Prod.mk.injEq]
  exact ⟨fun hm => hm.resolve_left fun he => hne he.1, .inr⟩

theorem find?_insertOrAssign (m : DenseMap K V) (k j : K) (v : V) :
    (m.insertOrAssign k v).find? j = if j = k then some v else m.find? j := by
  by_cases h : j = k
  · rw [h, if_pos rfl, find?_insertOrAssign_self]
  · rw [if_neg h, find?_insertOrAssign_ne m v h]

theorem find?_erase (m : DenseMap K V) (k j : K) :
    (m.erase k).find? j = if j = k then none else m.find? j := by
  by_cases h : j = k
  · rw [h, if_pos rfl, find?_erase_self]
  · rw [if_neg h, find?_erase_ne m h]

/-! ### Counting entries -/

section Count

variable (p : K × V → Bool)

theorem countP_erase (h : m.find? k = some v) :
    m.entries.countP p = (m.erase k).entries.countP p + if p (k, v) then 1 else 0 := by
  rw [(erase_perm h).countP_eq, List.countP_cons]

theorem countP_insertOrAssign_new (v : V) (h : m.find? k = none) :
    (m.insertOrAssign k v).entries.countP p = m.entries.countP p + if p (k, v) then 1 else 0 := by
  rw [(insertOrAssign_perm m k v).countP_eq, List.countP_cons, erase_entries_of_none h]

theorem countP_insertOrAssign_old (w : V) (h : m.find? k = some v) :
    (m.insertOrAssign k w).entries.countP p + (if p (k, v) then 1 else 0) =
      m.entries.countP p + if p (k, w) then 1 else 0 := by
  rw [(insertOrAssign_perm m k w).countP_eq, List.countP_cons, countP_erase p h]
  omega

end Count

/-! ### Weighing entries -/

section Weight

variable (f : K × V → Nat)

/-- The weights of the entries together. -/
def weight (m : DenseMap K V) : Nat := (m.entries.map f).sum

theorem weight_erase (h : m.find? k = some v) : m.weight f = f (k, v) + (m.erase k).weight f := by
  rw [weight, ((erase_perm h).map f).sum_nat, List.map_cons, List.sum_cons]
  rfl

theorem weight_erase_le (m : DenseMap K V) (k : K) : (m.erase k).weight f ≤ m.weight f := by
  cases h : m.find? k with
  | none =>
    rw [weight, erase_entries_of_none h]
    exact Nat.le_refl _
  | some v =>
    rw [weight_erase f h]
    exact Nat.le_add_left _ _

theorem weight_insertOrAssign (m : DenseMap K V) (k : K) (v : V) :
    (m.insertOrAssign k v).weight f = f (k, v) + (m.erase k).weight f := by
  rw [weight, ((insertOrAssign_perm m k v).map f).sum_nat, List.map_cons, List.sum_cons]
  rfl

end Weight

/-- The entries of a key, in any order of visits. -/
theorem filter_key (h : m.find? k = some v) {visits : List (K × V)} (perm : visits.Perm m.entries) :
    visits.filter (fun e => decide (e.1 = k)) = [(k, v)] := by
  have others : (m.erase k).entries.filter (fun e => decide (e.1 = k)) = [] := by
    rw [List.filter_eq_nil_iff]
    rintro ⟨j, w⟩ member same
    have absent := find?_eq_none.mp (find?_erase_self m k) w
    rw [decide_eq_true_eq] at same
    exact absent (same ▸ member)
  have split := (perm.trans (erase_perm h)).filter (fun e => decide (e.1 = k))
  rw [List.filter_cons_of_pos (by simp), others] at split
  exact List.perm_singleton.mp split

/-! ### The sweep -/

section Sweep

variable {f : σ → K × V → Option V × σ} {g : K × V → Option V}

/-- After a sweep a key holds what the loop body decided for its entry. -/
theorem find?_sweep (decides : ∀ s e, (f s e).1 = g e) (m : DenseMap K V) (s : σ) (k : K) :
    (m.sweep f s).1.find? k = (m.find? k).bind (fun v => g (k, v)) := by
  obtain ⟨visits, perm, kept, -⟩ := sweep_spec decides m s
  apply Option.ext
  intro w
  rw [find?_eq_some, kept, List.mem_filterMap]
  constructor
  · rintro ⟨⟨j, v⟩, member, decided⟩
    obtain ⟨w', hg, he⟩ := Option.map_eq_some_iff.mp decided
    obtain ⟨rfl, rfl⟩ := Prod.mk.inj he
    rw [find?_eq_some.mpr (perm.mem_iff.mp member)]
    exact hg
  · intro h
    obtain ⟨v, found, hg⟩ := Option.bind_eq_some_iff.mp h
    exact ⟨(k, v), perm.mem_iff.mpr (find?_eq_some.mp found), by simp [hg]⟩

end Sweep

end DenseMap

end FloridUsb.Lib
