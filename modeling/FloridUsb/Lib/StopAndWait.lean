import FloridUsb.Lib.Machine
import Mathlib.Algebra.GroupWithZero.Nat
import Mathlib.Algebra.Order.BigOperators.Group.List
import Mathlib.Algebra.Order.Group.Nat

/-!
# Stop and wait

One party sends requests, one at a time; the other serves the first copy of a request that
arrives and answers every copy. Copies and answers are lost on the way. When nothing of a request
is on the way any more it is sent again, and given up when its budget of retries is spent.

In every run the requests are concluded in their order, each with one answer or one failure, none
is served twice, what is answered has been served, and a failure has cost more losses than the
request had retries (`Accounted.run`).
-/

namespace FloridUsb.Lib.StopAndWait
set_option autoImplicit false

/-- Where the request that is out has got to. -/
inductive Place where
  | asking | answering | gone
deriving DecidableEq

/-- The request that is out. -/
structure Attempt (α : Type) where
  request : α
  retries : Nat := 0
  served : Bool := false
  place : Place := .asking

/-- The requests that wait for their turn, and the one that is out. -/
structure State (α : Type) where
  waiting : List α := []
  current : Option (Attempt α) := none

inductive Op (α : Type) where
  | queue (a : α)
  /-- The next request goes out, if none is. -/
  | start
  /-- The request or its answer is lost. -/
  | lose
  /-- Something is lost that nobody waits for. -/
  | stray
  /-- The request arrives. -/
  | serve
  /-- The answer arrives. -/
  | answer
  /-- The request is sent again or given up. -/
  | retry

/-- The request that is queued, if any. -/
def Op.queued? {α : Type} : Op α → Option α
  | .queue a => some a
  | _ => none

inductive Event (α : Type) where
  | queued (a : α)
  | lost
  | served (a : α)
  | answered (a : α)
  | failed (a : α)

section Steps

variable {α : Type} (budget : α → Nat)

def step (s : State α) : Op α → State α × List (Event α)
  | .queue a => ({ s with waiting := s.waiting ++ [a] }, [.queued a])
  | .start =>
    match s.current, s.waiting with
    | none, a :: rest => (⟨rest, some { request := a }⟩, [])
    | _, _ => (s, [])
  | .lose =>
    match s.current with
    | some ⟨a, n, served, _⟩ => ({ s with current := some ⟨a, n, served, .gone⟩ }, [.lost])
    | none => (s, [])
  | .stray => (s, [.lost])
  | .serve =>
    match s.current with
    | some ⟨a, n, served, .asking⟩ =>
      ({ s with current := some ⟨a, n, true, .answering⟩ }, if served then [] else [.served a])
    | _ => (s, [])
  | .answer =>
    match s.current with
    | some ⟨a, _, _, .answering⟩ => ({ s with current := none }, [.answered a])
    | _ => (s, [])
  | .retry =>
    match s.current with
    | some ⟨a, n, served, .gone⟩ =>
      if n < budget a then ({ s with current := some ⟨a, n + 1, served, .asking⟩ }, [])
      else ({ s with current := none }, [.failed a])
    | _ => (s, [])

/-- Stop and wait as a machine. -/
def stopAndWait : Machine (State α) (Op α) (Event α) where
  step := step budget

end Steps

/-! ### What a log says -/

section Logs

variable {α : Type}

def Event.queued? : Event α → Option α
  | .queued a => some a
  | _ => none

def Event.served? : Event α → Option α
  | .served a => some a
  | _ => none

/-- A request that is concluded, and whether it was answered. -/
def Event.concluded? : Event α → Option (α × Bool)
  | .answered a => some (a, true)
  | .failed a => some (a, false)
  | _ => none

def Event.isLost : Event α → Bool
  | .lost => true
  | _ => false

def queued (log : List (Event α)) : List α := log.filterMap Event.queued?

def served (log : List (Event α)) : List α := log.filterMap Event.served?

def concluded (log : List (Event α)) : List (α × Bool) := log.filterMap Event.concluded?

def losses (log : List (Event α)) : Nat := log.countP Event.isLost

/-- The requests answered. -/
def answered (done : List (α × Bool)) : List α := (done.filter (·.2)).map Prod.fst

/-- What the failures have cost at least. -/
def price (budget : α → Nat) (done : List (α × Bool)) : Nat :=
  ((done.filter (!·.2)).map fun d => budget d.1 + 1).sum

variable (a b : List (Event α))

@[simp] theorem queued_append : queued (a ++ b) = queued a ++ queued b := List.filterMap_append

@[simp] theorem served_append : served (a ++ b) = served a ++ served b := List.filterMap_append

@[simp] theorem concluded_append : concluded (a ++ b) = concluded a ++ concluded b := List.filterMap_append

@[simp] theorem losses_append : losses (a ++ b) = losses a + losses b := List.countP_append

@[simp] theorem answered_append (c d : List (α × Bool)) : answered (c ++ d) = answered c ++ answered d := by
  rw [answered, List.filter_append, List.map_append]
  rfl

@[simp] theorem price_append (budget : α → Nat) (c d : List (α × Bool)) :
    price budget (c ++ d) = price budget c + price budget d := by
  rw [price, List.filter_append, List.map_append, List.sum_append]
  rfl

/-- A failure costs more than the retries of its request, so what has cost less is answered. -/
theorem answered_of_cheap {budget : α → Nat} {done : List (α × Bool)} {d : α × Bool} (member : d ∈ done)
    (cheap : price budget done ≤ budget d.1) : d.2 = true := by
  by_contra failed
  have counted : budget d.1 + 1 ∈ (done.filter (!·.2)).map fun d => budget d.1 + 1 := by
    apply List.mem_map_of_mem
    rw [List.mem_filter]
    exact ⟨member, by simpa using failed⟩
  have part := List.le_sum_of_mem counted
  rw [price] at cheap
  omega

end Logs

/-- Only a request that is queued is logged as such. -/
theorem queued_step {α : Type} (budget : α → Nat) (s : State α) {o : Op α} (other : o.queued? = none) :
    queued (step budget s o).2 = [] := by
  cases o with
  | queue a => cases other
  | stray => rfl
  | start | lose | serve | answer | retry =>
    simp only [step]
    repeat' split
    all_goals rfl

/-! ### The account of a run -/

namespace Attempt

variable {α : Type}

/-- The request, if it has been served. -/
def servedOnly (c : Attempt α) : List α := if c.served then [c.request] else []

/-- The losses that the request has cost so far. -/
def cost (c : Attempt α) : Nat := c.retries + if c.place = .gone then 1 else 0

end Attempt

namespace State

variable {α : Type} (s : State α)

/-- The requests that are not concluded. -/
def requests : List α := (s.current.map Attempt.request).toList ++ s.waiting

/-- The requests that are not served. -/
def unserved : List α := ((s.current.filter (!·.served)).map Attempt.request).toList ++ s.waiting

/-- The request that is out, if it has been served. -/
def servedNow : List α := s.current.elim [] Attempt.servedOnly

/-- The losses that the request that is out has cost so far. -/
def cost : Nat := s.current.elim 0 Attempt.cost

end State

section Account

variable {α : Type}

/-- What has become of the requests that were queued: those concluded, those served, and what was
lost. -/
structure Accounts (budget : α → Nat) (s : State α) (queued served : List α) (done : List (α × Bool)) (losses : Nat) :
    Prop where
  /-- An answer is on the way for a request that was served. -/
  answering : ∀ c, s.current = some c → c.place = .answering → c.served = true
  order : done.map Prod.fst ++ s.requests = queued
  once : served.Sublist (done.map Prod.fst ++ s.servedNow)
  answers : (answered done ++ s.servedNow).Sublist served
  paid : price budget done + s.cost ≤ losses

namespace Accounts

variable {budget : α → Nat} {waiting queued served : List α} {done : List (α × Bool)} {lost n : Nat} {a : α}
  {was : Bool} {place : Place}

theorem init (budget : α → Nat) : Accounts budget {} [] [] [] 0 where
  answering c out := by cases out
  order := rfl
  once := List.Sublist.slnil
  answers := List.Sublist.slnil
  paid := Nat.le_refl _

theorem queue {s : State α} (i : Accounts budget s queued served done lost) (a : α) :
    Accounts budget { s with waiting := s.waiting ++ [a] } (queued ++ [a]) served done lost where
  answering := i.answering
  order := by
    rw [← i.order]
    simp only [State.requests, List.append_assoc]
  once := i.once
  answers := i.answers
  paid := i.paid

/-- A request that goes out has cost nothing yet. -/
theorem start (i : Accounts budget ⟨a :: waiting, none⟩ queued served done lost) :
    Accounts budget ⟨waiting, some { request := a }⟩ queued served done lost where
  answering c out place := by
    cases out
    cases place
  order := i.order
  once := i.once
  answers := i.answers
  paid := i.paid

theorem stray {s : State α} (i : Accounts budget s queued served done lost) :
    Accounts budget s queued served done (lost + 1) :=
  ⟨i.answering, i.order, i.once, i.answers, Nat.le_succ_of_le i.paid⟩

theorem lose (i : Accounts budget ⟨waiting, some ⟨a, n, was, place⟩⟩ queued served done lost) :
    Accounts budget ⟨waiting, some ⟨a, n, was, .gone⟩⟩ queued served done (lost + 1) where
  answering c out place := by
    cases out
    cases place
  order := i.order
  once := i.once
  answers := i.answers
  paid := by
    have paid := i.paid
    simp only [State.cost, Option.elim_some, Attempt.cost, if_true] at paid ⊢
    omega

/-- A copy of a request that was served already. -/
theorem serveAgain (i : Accounts budget ⟨waiting, some ⟨a, n, true, .asking⟩⟩ queued served done lost) :
    Accounts budget ⟨waiting, some ⟨a, n, true, .answering⟩⟩ queued served done lost where
  answering c out _ := by
    cases out
    rfl
  order := i.order
  once := i.once
  answers := i.answers
  paid := i.paid

/-- The first copy that arrives. -/
theorem serve (i : Accounts budget ⟨waiting, some ⟨a, n, false, .asking⟩⟩ queued served done lost) :
    Accounts budget ⟨waiting, some ⟨a, n, true, .answering⟩⟩ queued (served ++ [a]) done lost where
  answering c out _ := by
    cases out
    rfl
  order := i.order
  once := by
    have once := i.once
    rw [show State.servedNow ⟨waiting, some ⟨a, n, false, .asking⟩⟩ = [] from rfl, List.append_nil] at once
    exact once.append (List.Sublist.refl [a])
  answers := by
    have answers := i.answers
    rw [show State.servedNow ⟨waiting, some ⟨a, n, false, .asking⟩⟩ = [] from rfl, List.append_nil] at answers
    exact answers.append (List.Sublist.refl [a])
  paid := i.paid

/-- What is answered has been served. -/
theorem answer (i : Accounts budget ⟨waiting, some ⟨a, n, was, .answering⟩⟩ queued served done lost) :
    Accounts budget ⟨waiting, none⟩ queued served (done ++ [(a, true)]) lost := by
  obtain rfl : was = true := i.answering _ rfl rfl
  constructor
  · intro c out
    cases out
  · rw [← i.order, List.map_append, List.append_assoc]
    rfl
  · rw [List.map_append]
    exact i.once.trans (List.sublist_append_left _ _)
  · rw [answered_append]
    show (answered done ++ [a] ++ []).Sublist served
    rw [List.append_nil]
    exact i.answers
  · have free : price budget [(a, true)] = 0 := rfl
    rw [price_append, free]
    exact Nat.le_trans (Nat.add_le_add_left (Nat.zero_le _) _) i.paid

theorem resend (i : Accounts budget ⟨waiting, some ⟨a, n, was, .gone⟩⟩ queued served done lost) :
    Accounts budget ⟨waiting, some ⟨a, n + 1, was, .asking⟩⟩ queued served done lost where
  answering c out place := by
    cases out
    cases place
  order := i.order
  once := i.once
  answers := i.answers
  paid := i.paid

/-- Each copy of the request has been lost, or the answer to it. -/
theorem fail (i : Accounts budget ⟨waiting, some ⟨a, n, was, .gone⟩⟩ queued served done lost) (spent : ¬ n < budget a) :
    Accounts budget ⟨waiting, none⟩ queued served (done ++ [(a, false)]) lost where
  answering c out := by cases out
  order := by
    rw [← i.order, List.map_append, List.append_assoc]
    rfl
  once := by
    have within : (State.servedNow ⟨waiting, some ⟨a, n, was, .gone⟩⟩).Sublist [a] := by
      cases was with
      | true => exact List.Sublist.refl _
      | false => exact List.nil_sublist _
    rw [List.map_append]
    exact i.once.trans (((List.Sublist.refl _).append within).trans (List.sublist_append_left _ _))
  answers := by
    rw [answered_append]
    show (answered done ++ [] ++ []).Sublist served
    rw [List.append_nil, List.append_nil]
    exact (List.sublist_append_left _ _).trans i.answers
  paid := by
    have paid := i.paid
    have cost : price budget [(a, false)] = budget a + 1 := rfl
    rw [price_append, cost]
    simp only [State.cost, Option.elim_some, Option.elim_none, Attempt.cost, if_true] at paid ⊢
    omega

/-- Each request is served once at most, in order. -/
theorem served_once {s : State α} (i : Accounts budget s queued served done lost) : served.Sublist queued := by
  have within : s.servedNow.Sublist s.requests := by
    obtain ⟨waiting, _ | ⟨a, n, was, place⟩⟩ := s
    · exact List.nil_sublist _
    · cases was with
      | true => exact (List.nil_sublist waiting).cons_cons a
      | false => exact List.nil_sublist _
  rw [← i.order]
  exact i.once.trans ((List.Sublist.refl _).append within)

end Accounts

/-- The account of a run that has logged `log`. -/
def Accounted (budget : α → Nat) (s : State α) (log : List (Event α)) : Prop :=
  Accounts budget s (queued log) (served log) (concluded log) (losses log)

namespace Accounted

variable {budget : α → Nat} {s : State α} {log : List (Event α)}

theorem nothing (i : Accounted budget s log) : Accounted budget s (log ++ []) := by rwa [List.append_nil]

/-- What an event adds to the account. -/
theorem snoc {e : Event α} (i : Accounts budget s (queued log ++ e.queued?.toList) (served log ++ e.served?.toList)
    (concluded log ++ e.concluded?.toList) (losses log + if e.isLost then 1 else 0)) :
    Accounted budget s (log ++ [e]) := by
  rw [Accounted, queued_append, served_append, concluded_append, losses_append]
  cases e <;> exact i

variable {a : α} {answered : Bool}

theorem snocQueued (i : Accounts budget s (queued log ++ [a]) (served log) (concluded log) (losses log)) :
    Accounted budget s (log ++ [.queued a]) := by
  apply snoc
  simpa [Event.queued?, Event.served?, Event.concluded?, Event.isLost] using i

theorem snocServed (i : Accounts budget s (queued log) (served log ++ [a]) (concluded log) (losses log)) :
    Accounted budget s (log ++ [.served a]) := by
  apply snoc
  simpa [Event.queued?, Event.served?, Event.concluded?, Event.isLost] using i

theorem snocAnswered (i : Accounts budget s (queued log) (served log) (concluded log ++ [(a, true)]) (losses log)) :
    Accounted budget s (log ++ [.answered a]) := by
  apply snoc
  simpa [Event.queued?, Event.served?, Event.concluded?, Event.isLost] using i

theorem snocFailed (i : Accounts budget s (queued log) (served log) (concluded log ++ [(a, false)]) (losses log)) :
    Accounted budget s (log ++ [.failed a]) := by
  apply snoc
  simpa [Event.queued?, Event.served?, Event.concluded?, Event.isLost] using i

theorem snocLost (i : Accounts budget s (queued log) (served log) (concluded log) (losses log + 1)) :
    Accounted budget s (log ++ [.lost]) := by
  apply snoc
  simpa [Event.queued?, Event.served?, Event.concluded?, Event.isLost] using i

/-- Every operation keeps the account. -/
theorem step (i : Accounted budget s log) (o : Op α) :
    Accounted budget ((stopAndWait budget).step s o).1 (log ++ ((stopAndWait budget).step s o).2) := by
  obtain ⟨waiting, current⟩ := s
  match o, waiting, current, i with
  | .queue a, _, _, i => exact snocQueued (Accounts.queue i a)
  | .start, [], none, i => exact i.nothing
  | .start, _, some c, i => exact i.nothing
  | .start, a :: rest, none, i => exact nothing (Accounts.start i)
  | .lose, _, none, i => exact i.nothing
  | .lose, _, some ⟨a, n, was, place⟩, i => exact snocLost (Accounts.lose i)
  | .stray, _, _, i => exact snocLost (Accounts.stray i)
  | .serve, _, none, i => exact i.nothing
  | .serve, _, some ⟨a, n, was, .gone⟩, i => exact i.nothing
  | .serve, _, some ⟨a, n, was, .answering⟩, i => exact i.nothing
  | .serve, _, some ⟨a, n, true, .asking⟩, i => exact nothing (Accounts.serveAgain i)
  | .serve, _, some ⟨a, n, false, .asking⟩, i => exact snocServed (Accounts.serve i)
  | .answer, _, none, i => exact i.nothing
  | .answer, _, some ⟨a, n, was, .gone⟩, i => exact i.nothing
  | .answer, _, some ⟨a, n, was, .asking⟩, i => exact i.nothing
  | .answer, _, some ⟨a, n, was, .answering⟩, i => exact snocAnswered (Accounts.answer i)
  | .retry, _, none, i => exact i.nothing
  | .retry, _, some ⟨a, n, was, .asking⟩, i => exact i.nothing
  | .retry, _, some ⟨a, n, was, .answering⟩, i => exact i.nothing
  | .retry, _, some ⟨a, n, was, .gone⟩, i =>
    show Accounted budget (StopAndWait.step budget _ .retry).1 (log ++ (StopAndWait.step budget _ .retry).2)
    simp only [StopAndWait.step]
    split
    · exact nothing (Accounts.resend i)
    · exact snocFailed (Accounts.fail i ‹_›)

/-- **The account of a run.** -/
theorem run (budget : α → Nat) (ops : List (Op α)) :
    Accounted budget ((stopAndWait budget).exec {} ops) ((stopAndWait budget).trace {} ops) :=
  (stopAndWait budget).run_invariant_always (I := Accounted budget) (Accounts.init budget) (fun _ _ o i => i.step o) ops

end Accounted

end Account

end FloridUsb.Lib.StopAndWait
