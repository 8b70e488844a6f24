import FloridUsb.Lib.DenseMap
import Mathlib.Data.List.Lattice

/-!
# Dense maps in memory

The entry array of a dense map lies in one block of memory, with room for some number of
entries. A `Slot` is a reference into it: a place in the array at one allocation of the block.
An insertion into a full array relocates it, and every reference taken before dangles.

`insertAll` says which insertions do that: those that bring the number of keys over the
capacity (`allocation_insertAll`, `allocation_lt_insertAll`). `walk` is the loop by position
that erases while it iterates, which `DenseMap.sweep` describes without positions; an entry
it keeps stays at the place where it was visited (`getElem?_walk`).
-/

namespace FloridUsb.Lib
set_option autoImplicit false

/-- A place in an array, at one allocation of its block. -/
structure Slot where
  allocation : Nat
  index : Nat
deriving DecidableEq

/-- The capacity that a full array of a given capacity grows to. -/
structure Growth where
  grow : Nat → Nat
  grows : ∀ n, n < grow n

section Lists

variable {K V : Type} [DecidableEq K] {k : K} {v : V} {l : List (K × V)}

/-- An assignment changes the value of its key and nothing else that is there. -/
theorem getElem?_assign (distinct : (l.map Prod.fst).Nodup) {i : Nat} {j : K} {w : V} (here : l[i]? = some (j, w)) :
    (assign k v l)[i]? = some (j, if j = k then v else w) := by
  induction l generalizing i with
  | nil => simp at here
  | cons e rest ih =>
    have unique := List.nodup_cons.mp distinct
    by_cases own : e.1 = k
    · rw [assign, if_pos own]
      cases i with
      | zero =>
        cases here
        simp [← own]
      | succ i =>
        have there : (j, w) ∈ rest := List.mem_of_getElem? here
        have other : j ≠ k := by
          rintro rfl
          exact unique.1 (own ▸ List.mem_map_of_mem there)
        rw [if_neg other]
        exact here
    · rw [assign, if_neg own]
      cases i with
      | zero =>
        cases here
        simp [own]
      | succ i => exact ih unique.2 here

theorem mem_keys_assign {j : K} : j ∈ (assign k v l).map Prod.fst ↔ j = k ∨ j ∈ l.map Prod.fst := by
  induction l with
  | nil => simp [assign]
  | cons e rest ih =>
    by_cases own : e.1 = k
    · simp [assign, own]
    · rw [assign, if_neg own, List.map_cons, List.mem_cons, ih, List.map_cons, List.mem_cons]
      exact ⟨fun h => by tauto, fun h => by tauto⟩

theorem length_assign : (assign k v l).length = if k ∈ l.map Prod.fst then l.length else l.length + 1 := by
  induction l with
  | nil => rfl
  | cons e rest ih =>
    by_cases own : e.1 = k
    · simp [assign, own]
    · rw [assign, if_neg own, List.length_cons, ih]
      simp only [List.map_cons, List.mem_cons, Ne.symm own, false_or]
      split <;> rfl

theorem DenseMap.length_insertOrAssign_old {m : DenseMap K V} {w : V} (v : V) (found : m.find? k = some w) :
    (m.insertOrAssign k v).entries.length = m.entries.length := by
  have present : k ∈ m.entries.map Prod.fst := List.mem_map_of_mem (mem_of_lookup found)
  show (assign k v m.entries).length = _
  rw [length_assign, if_pos present]

theorem lookup_append {j : K} {b : List (K × V)} : lookup j (l ++ b) = (lookup j l).or (lookup j b) := by
  induction l with
  | nil => rfl
  | cons e rest ih =>
    rw [List.cons_append, lookup, lookup]
    split
    · rfl
    · exact ih

end Lists

/-- Lists of distinct entries with the same entries are of one length. -/
theorem length_eq_of_nodup {K : Type} {a b : List K} (ha : a.Nodup) (hb : b.Nodup) (same : ∀ x, x ∈ a ↔ x ∈ b) :
    a.length = b.length :=
  ((List.perm_ext_iff_of_nodup ha hb).mpr same).length_eq

/-- A dense map whose entries have room at the present allocation. -/
structure DenseArray (K V : Type) where
  map : DenseMap K V
  allocation : Nat
  capacity : Nat
  fits : map.entries.length ≤ capacity

namespace DenseArray

section Insertion

variable {K V : Type} (a : DenseArray K V)

def empty : DenseArray K V := ⟨.empty, 0, 0, Nat.le_refl 0⟩

def keys : List K := a.map.entries.map Prod.fst

theorem length_keys : a.keys.length = a.map.entries.length := List.length_map ..

/-- What a reference refers to, if it does not dangle. -/
def deref (r : Slot) : Option (K × V) := if r.allocation = a.allocation then a.map.entries[r.index]? else none

/-- The same block with other entries, no more than before. -/
def inPlace (m : DenseMap K V) (fewer : m.entries.length ≤ a.map.entries.length) : DenseArray K V where
  map := m
  allocation := a.allocation
  capacity := a.capacity
  fits := Nat.le_trans fewer a.fits

variable [DecidableEq K] (g : Growth)

/-- An insertion or an assignment. A new entry of a full array relocates it. -/
def insertOrAssign (k : K) (v : V) : DenseArray K V :=
  if full : k ∉ a.keys ∧ a.map.entries.length = a.capacity then
    { map := a.map.insertOrAssign k v
      allocation := a.allocation + 1
      capacity := g.grow a.capacity
      fits := by
        have grows := g.grows a.capacity
        show (assign k v a.map.entries).length ≤ _
        rw [length_assign]
        split <;> omega }
  else
    { map := a.map.insertOrAssign k v
      allocation := a.allocation
      capacity := a.capacity
      fits := by
        have fits := a.fits
        show (assign k v a.map.entries).length ≤ _
        rw [length_assign]
        split
        · exact fits
        · rename_i new
          have room : a.map.entries.length ≠ a.capacity := fun same => full ⟨new, same⟩
          omega }

/-- Insertions one after the other. -/
def insertAll (a : DenseArray K V) : List (K × V) → DenseArray K V
  | [] => a
  | e :: rest => insertAll (a.insertOrAssign g e.1 e.2) rest

variable {a} {g} {k : K} {v : V}

@[simp] theorem map_insertOrAssign : (a.insertOrAssign g k v).map = a.map.insertOrAssign k v := by
  unfold insertOrAssign
  split <;> rfl

theorem mem_keys_insertOrAssign {j : K} : j ∈ (a.insertOrAssign g k v).keys ↔ j = k ∨ j ∈ a.keys := by
  rw [keys, map_insertOrAssign]
  exact mem_keys_assign

theorem insertOrAssign_room (room : ¬ (k ∉ a.keys ∧ a.map.entries.length = a.capacity)) :
    (a.insertOrAssign g k v).allocation = a.allocation ∧ (a.insertOrAssign g k v).capacity = a.capacity := by
  rw [insertOrAssign, dif_neg room]
  exact ⟨rfl, rfl⟩

theorem insertOrAssign_full (full : k ∉ a.keys ∧ a.map.entries.length = a.capacity) :
    (a.insertOrAssign g k v).allocation = a.allocation + 1 := by
  rw [insertOrAssign, dif_pos full]

theorem insertAll_append (l m : List (K × V)) : a.insertAll g (l ++ m) = (a.insertAll g l).insertAll g m := by
  induction l generalizing a with
  | nil => rfl
  | cons e rest ih => exact ih

theorem allocation_le_insertAll (l : List (K × V)) : a.allocation ≤ (a.insertAll g l).allocation := by
  induction l generalizing a with
  | nil => exact Nat.le_refl _
  | cons e rest ih =>
    apply Nat.le_trans _ ih
    by_cases full : e.1 ∉ a.keys ∧ a.map.entries.length = a.capacity
    · rw [insertOrAssign_full full]
      exact Nat.le_succ _
    · exact Nat.le_of_eq (insertOrAssign_room full).1.symm

/-- The keys after the first insertion and the others. -/
theorem length_union_cons (e : K × V) (rest : List (K × V)) :
    (rest.map Prod.fst ∪ (a.insertOrAssign g e.1 e.2).keys).length = ((e :: rest).map Prod.fst ∪ a.keys).length := by
  apply length_eq_of_nodup
  · exact (a.insertOrAssign g e.1 e.2).map.nodup.union _
  · exact a.map.nodup.union _
  · intro j
    rw [List.mem_union_iff, List.mem_union_iff, mem_keys_insertOrAssign, List.map_cons, List.mem_cons]
    tauto

/-- As long as the keys have room, the array stays where it is. -/
theorem allocation_insertAll {l : List (K × V)} (room : (l.map Prod.fst ∪ a.keys).length ≤ a.capacity) :
    (a.insertAll g l).allocation = a.allocation := by
  induction l generalizing a with
  | nil => rfl
  | cons e rest ih =>
    have here : ¬ (e.1 ∉ a.keys ∧ a.map.entries.length = a.capacity) := by
      rintro ⟨new, full⟩
      have more : (a.insertOrAssign g e.1 e.2).keys.length ≤
          (rest.map Prod.fst ∪ (a.insertOrAssign g e.1 e.2).keys).length :=
        (List.suffix_union_right _ _).length_le
      have grown : (a.insertOrAssign g e.1 e.2).keys.length = a.map.entries.length + 1 := by
        rw [length_keys, map_insertOrAssign]
        show (assign _ _ _).length = _
        rw [length_assign]
        exact if_neg new
      rw [length_union_cons] at more
      omega
    obtain ⟨allocation, capacity⟩ := insertOrAssign_room (v := e.2) (g := g) here
    rw [← allocation]
    apply ih
    rw [length_union_cons, capacity]
    exact room

/-- Once the keys have no room, the array lies elsewhere. -/
theorem allocation_lt_insertAll {l : List (K × V)} (exceeds : a.capacity < (l.map Prod.fst ∪ a.keys).length) :
    a.allocation < (a.insertAll g l).allocation := by
  induction l generalizing a with
  | nil =>
    have fits := a.fits
    have same : ([] ∪ a.keys).length = a.map.entries.length := length_keys a
    rw [List.map_nil, same] at exceeds
    omega
  | cons e rest ih =>
    by_cases full : e.1 ∉ a.keys ∧ a.map.entries.length = a.capacity
    · have moved := insertOrAssign_full (v := e.2) (g := g) full
      have later : (a.insertOrAssign g e.1 e.2).allocation ≤ _ := allocation_le_insertAll (g := g) rest
      show a.allocation < ((a.insertOrAssign g e.1 e.2).insertAll g rest).allocation
      omega
    · obtain ⟨allocation, capacity⟩ := insertOrAssign_room (v := e.2) (g := g) full
      rw [← allocation]
      apply ih
      rw [length_union_cons, capacity]
      exact exceeds

/-- What is in the array stays at its place, with the last value assigned to its key. -/
theorem getElem?_insertAll {l : List (K × V)} {i : Nat} {j : K} {w : V} (here : a.map.entries[i]? = some (j, w)) :
    (a.insertAll g l).map.entries[i]? = some (j, (lookup j l.reverse).getD w) := by
  induction l generalizing a w with
  | nil => exact here
  | cons e rest ih =>
    have assigned : (a.insertOrAssign g e.1 e.2).map.entries[i]? = some (j, if j = e.1 then e.2 else w) := by
      rw [map_insertOrAssign]
      exact getElem?_assign a.map.nodup here
    rw [insertAll, ih assigned, List.reverse_cons, lookup_append, lookup, lookup]
    congr 2
    cases lookup j rest.reverse with
    | some u => rfl
    | none =>
      by_cases own : e.1 = j
      · rw [if_pos own.symm, if_pos own]
        rfl
      · rw [if_neg (Ne.symm own), if_neg own]
        rfl

end Insertion

end DenseArray

/-! ### Iteration by position -/

section Walk

variable {K V σ τ : Type}

/-- Erase the entry at a position: the last entry moves into the hole. -/
def eraseAt (l : List (K × V)) (pos : Nat) : List (K × V) :=
  match l.getLast? with
  | none => []
  | some last => (l.set pos last).dropLast

theorem eraseAt_append (front rest : List (K × V)) (e : K × V) :
    eraseAt (front ++ e :: rest) front.length = front ++ fillHole rest := by
  rcases List.eq_nil_or_concat rest with rfl | ⟨middle, last, rfl⟩
  · have nothing : fillHole ([] : List (K × V)) = [] := rfl
    rw [eraseAt, List.getLast?_concat, nothing, List.append_nil]
    simp
  · have split : front ++ e :: (middle ++ [last]) = (front ++ e :: middle) ++ [last] := by simp
    have moved : (front ++ e :: (middle ++ [last])).set front.length last = (front ++ last :: middle) ++ [last] := by
      rw [List.set_append_right _ _ (Nat.le_refl _), Nat.sub_self, List.set_cons_zero]
      simp
    rw [List.concat_eq_append, eraseAt]
    rw [split, List.getLast?_concat, ← split]
    simp only [moved, List.dropLast_concat]
    rw [fillHole, List.getLast?_concat]
    simp

/-- Iterate over an array from a position on. `g` decides each visited entry: a new value to keep it
with, or its erasure, after which the same position is visited again. `c` collects. -/
def walkFrom (g : K × V → Option V) (c : σ → Nat → K × V → σ) : Nat → Nat → List (K × V) → σ → List (K × V) × σ
  | 0, _, l, s => (l, s)
  | fuel + 1, pos, l, s =>
    match l[pos]? with
    | none => (l, s)
    | some e =>
      match g e with
      | some v => walkFrom g c fuel (pos + 1) (l.set pos (e.1, v)) (c s pos e)
      | none => walkFrom g c fuel pos (eraseAt l pos) (c s pos e)

/-- The entries that such a loop visits, each with its position, in order. -/
def tour (g : K × V → Option V) : Nat → Nat → List (K × V) → List (Nat × (K × V))
  | 0, _, _ => []
  | _ + 1, _, [] => []
  | n + 1, pos, e :: rest =>
    (pos, e) :: match g e with
      | some _ => tour g n (pos + 1) rest
      | none => tour g n pos (fillHole rest)

variable {g : K × V → Option V} {c : σ → Nat → K × V → σ}

/-- The loop by position does what the sweep does, and collects along its tour. -/
theorem walkFrom_eq (n : Nat) (front rest : List (K × V)) (bound : rest.length ≤ n) (s : σ) (c' : τ → K × V → τ)
    (t : τ) :
    walkFrom g c n front.length (front ++ rest) s =
        (front ++ (sweepFrom (fun t e => (g e, c' t e)) n rest t).1,
          (tour g n front.length rest).foldl (fun s e => c s e.1 e.2) s) ∧
      (sweepFrom (fun t e => (g e, c' t e)) n rest t).2 =
        (tour g n front.length rest).foldl (fun t e => c' t e.2) t := by
  induction n generalizing front rest s t with
  | zero =>
    have none_ : rest = [] := List.length_eq_zero_iff.mp (by omega)
    subst none_
    exact ⟨rfl, rfl⟩
  | succ n ih =>
    cases rest with
    | nil =>
      rw [walkFrom, List.append_nil, List.getElem?_eq_none (Nat.le_refl _)]
      simp [sweepFrom, tour]
    | cons e rest =>
      have here : (front ++ e :: rest)[front.length]? = some e := by simp
      simp only [List.length_cons] at bound
      rw [walkFrom, here]
      cases decided : g e with
      | some v =>
        have replaced : (front ++ e :: rest).set front.length (e.1, v) = (front ++ [(e.1, v)]) ++ rest := by
          rw [List.set_append_right _ _ (Nat.le_refl _), Nat.sub_self, List.set_cons_zero]
          simp
        have next := ih (front ++ [(e.1, v)]) rest (by omega) (c s front.length e) (c' t e)
        rw [List.length_append, List.length_singleton] at next
        simp only [decided, replaced, sweepFrom, tour, List.foldl_cons]
        rw [next.1, next.2]
        exact ⟨by simp, rfl⟩
      | none =>
        have next := ih front (fillHole rest) (by rw [(fillHole_perm rest).length_eq]; omega)
            (c s front.length e) (c' t e)
        simp only [decided, eraseAt_append, sweepFrom, tour, List.foldl_cons]
        exact next

/-- An entry that is kept stays where it was visited. -/
theorem getElem?_walkFrom (n : Nat) (front rest : List (K × V)) (bound : rest.length ≤ n) (s : σ) {pos : Nat}
    {e : K × V}
    {v : V} (visited : (pos, e) ∈ tour g n front.length rest) (kept : g e = some v) :
    (walkFrom g c n front.length (front ++ rest) s).1[pos]? = some (e.1, v) := by
  induction n generalizing front rest s with
  | zero => cases visited
  | succ n ih =>
    cases rest with
    | nil => cases visited
    | cons d rest =>
      have here : (front ++ d :: rest)[front.length]? = some d := by simp
      simp only [List.length_cons] at bound
      rw [walkFrom, here]
      rw [tour] at visited
      cases decided : g d with
      | some w =>
        have replaced : (front ++ d :: rest).set front.length (d.1, w) = (front ++ [(d.1, w)]) ++ rest := by
          rw [List.set_append_right _ _ (Nat.le_refl _), Nat.sub_self, List.set_cons_zero]
          simp
        have longer : front.length + 1 = (front ++ [(d.1, w)]).length := by simp
        simp only [decided, replaced] at visited ⊢
        rw [longer] at visited ⊢
        rcases List.mem_cons.mp visited with first | later
        · cases first
          obtain rfl := Option.some.inj (decided.symm.trans kept)
          rw [(walkFrom_eq n _ rest (by omega) _ (fun _ _ => ()) ()).1]
          simp
        · exact ih _ rest (by omega) _ later
      | none =>
        simp only [decided, eraseAt_append] at visited ⊢
        rcases List.mem_cons.mp visited with first | later
        · cases first
          rw [kept] at decided
          cases decided
        · exact ih front (fillHole rest) (by rw [(fillHole_perm rest).length_eq]; omega) _ later

/-- A tour visits every entry once. -/
theorem tour_perm (n pos : Nat) (rest : List (K × V)) (bound : rest.length ≤ n) :
    ((tour g n pos rest).map Prod.snd).Perm rest := by
  induction n generalizing pos rest with
  | zero =>
    have none_ : rest = [] := List.length_eq_zero_iff.mp (by omega)
    subst none_
    exact List.Perm.refl _
  | succ n ih =>
    cases rest with
    | nil => exact List.Perm.refl _
    | cons e rest =>
      simp only [List.length_cons] at bound
      rw [tour, List.map_cons]
      apply List.Perm.cons
      cases g e with
      | some v => exact ih (pos + 1) rest (by omega)
      | none =>
        exact (ih pos (fillHole rest) (by rw [(fillHole_perm rest).length_eq]; omega)).trans (fillHole_perm rest)

/-- An iteration makes no entries. -/
theorem length_sweepFrom_le (f : σ → K × V → Option V × σ) (l : List (K × V)) (s : σ) :
    (sweepFrom f l.length l s).1.length ≤ l.length := by
  obtain ⟨visits, perm, kept, -⟩ := sweepFrom_visits f l.length l s (Nat.le_refl _)
  rw [kept, ← perm.length_eq, List.length_map]
  exact List.length_filterMap_le ..

namespace DenseArray

variable (a : DenseArray K V) (g : K × V → Option V) (c : σ → Nat → K × V → σ) (s : σ)

/-- The entries of the array in the order in which an iteration that erases visits them. -/
def tour : List (Nat × (K × V)) := Lib.tour g a.map.entries.length 0 a.map.entries

theorem walkFrom_sweep (c' : τ → K × V → τ) (t : τ) :
    (walkFrom g c a.map.entries.length 0 a.map.entries s).1 = (a.map.sweep (fun t e => (g e, c' t e)) t).1.entries := by
  have walked := (walkFrom_eq (g := g) (c := c) a.map.entries.length [] a.map.entries (Nat.le_refl _) s c' t).1
  rw [List.nil_append, List.length_nil] at walked
  rw [walked]
  rfl

/-- The iteration over the whole array, in place. -/
def walk : DenseArray K V × σ :=
  let walked := walkFrom g c a.map.entries.length 0 a.map.entries s
  (a.inPlace ⟨walked.1, by
      rw [a.walkFrom_sweep g c s (fun _ _ => ()) ()]
      exact (a.map.sweep _ ()).1.nodup⟩ (by
      show walked.1.length ≤ _
      rw [a.walkFrom_sweep g c s (fun _ _ => ()) ()]
      exact length_sweepFrom_le _ _ _), walked.2)

/-- In the map, it is the sweep. -/
theorem map_walk (c' : τ → K × V → τ) (t : τ) :
    (a.walk g c s).1.map = (a.map.sweep (fun t e => (g e, c' t e)) t).1 := by
  have same := a.walkFrom_sweep g c s c' t
  generalize a.map.sweep (fun t e => (g e, c' t e)) t = swept at same
  obtain ⟨⟨entries, nodup⟩, _⟩ := swept
  cases same
  rfl

theorem walk_collects : (a.walk g c s).2 = (a.tour g).foldl (fun s e => c s e.1 e.2) s := by
  have walked := (walkFrom_eq (g := g) (c := c) a.map.entries.length [] a.map.entries (Nat.le_refl _) s
    (fun _ _ => ()) ()).1
  rw [List.nil_append, List.length_nil] at walked
  exact congrArg Prod.snd walked

theorem sweep_collects (c' : τ → K × V → τ) (t : τ) :
    (a.map.sweep (fun t e => (g e, c' t e)) t).2 = (a.tour g).foldl (fun t e => c' t e.2) t :=
  (walkFrom_eq (g := g) (c := fun _ _ _ => ()) a.map.entries.length [] a.map.entries (Nat.le_refl _) () c' t).2

theorem tour_perm : ((a.tour g).map Prod.snd).Perm a.map.entries := Lib.tour_perm _ _ _ (Nat.le_refl _)

/-- A reference to a visited entry that is kept is good after the iteration. -/
theorem getElem?_walk {pos : Nat} {e : K × V} {v : V} (visited : (pos, e) ∈ a.tour g) (kept : g e = some v) :
    (a.walk g c s).1.map.entries[pos]? = some (e.1, v) :=
  getElem?_walkFrom a.map.entries.length [] a.map.entries (Nat.le_refl _) s visited kept

end DenseArray

end Walk

end FloridUsb.Lib
