import Mathlib.Logic.Function.Basic
import FloridUsb.Rpl.ArmPackets
import FloridUsb.Rpl.Serializer
import FloridUsb.Stack.Receive

/-!
# Several stacks on one thread

A parsed packet does not go to its stack directly. `after_parse` calls the thread's
`ProtocolDispatch::on_packet`, a lambda of one type of stack, and that lambda goes to the
thread's `ProtocolStack::instance` of its type. The constructor and `bind_to_current_thread`
set both pointers, and the destructor clears both if `instance` is the dying object.

The destructor does not ask whose lambda `on_packet` is. A stack that took it over from a stack
of another type loses it when that stack is destroyed (`routing_iff`).
-/

namespace FloridUsb.Stack
set_option autoImplicit false

open Lib Rpl

/-- The address of a stack object, free for another one once it is destroyed. -/
abbrev StackId := Nat

/-- A stack of the type `kind`, an instantiation of the class template. -/
structure StackObject (target : Target) (κ : Type) where
  kind : κ
  rx : RxPath target

/-- A thread: the stacks that live on it, and its dispatch pointers. -/
structure ThreadState (target : Target) (κ : Type) where
  objects : StackId → Option (StackObject target κ) := fun _ => none
  /-- `ProtocolDispatch::on_packet`: null, or the lambda of a type of stack. -/
  onPacket : Option κ := none
  /-- `ProtocolStack::instance`, a pointer for each type. -/
  instanceOf : κ → Option StackId := fun _ => none

inductive ThreadOp (κ : Type)
  | construct (id : StackId) (kind : κ)
  | bindToCurrentThread (id : StackId)
  | destroy (id : StackId)
  /-- The stack is fed, or a part of its cycle runs. -/
  | receive (id : StackId) (op : RxOp)

inductive ThreadEvent (κ : Type)
  /-- The stack has been constructed, or bound again. -/
  | bound (id : StackId) (kind : κ)
  | destroyed (id : StackId) (kind : κ)
  /-- A packet of the stream of `source` is passed to `handle_packet_internal` of `handler`. -/
  | handled (source handler : StackId) (c : Call)
  /-- `on_packet` or the instance it goes to is null. -/
  | dropped (source : StackId) (c : Call)
  | received (id : StackId) (e : RxEvent)
  deriving DecidableEq

namespace ThreadState

variable {target : Target} {κ : Type} [DecidableEq κ] (s : ThreadState target κ)

/-- What the constructor and `bind_to_current_thread` do to the pointers. -/
def bind (id : StackId) (kind : κ) : ThreadState target κ :=
  { s with onPacket := some kind, instanceOf := Function.update s.instanceOf kind (some id) }

/-- The destructor. -/
def destroy (id : StackId) (kind : κ) : ThreadState target κ :=
  let gone := { s with objects := Function.update s.objects id none }
  if s.instanceOf kind = some id then
    { gone with onPacket := none, instanceOf := Function.update s.instanceOf kind none }
  else gone

/-- `dispatch_after_parse` and the lambda. -/
def dispatch (source : StackId) (c : Call) : ThreadEvent κ :=
  match s.onPacket with
  | none => .dropped source c
  | some kind =>
    match s.instanceOf kind with
    | none => .dropped source c
    | some handler => .handled source handler c

def pass (source : StackId) : RxEvent → ThreadEvent κ
  | .call c => s.dispatch source c
  | e => .received source e

/-- An object that does not live is not operated on, and nothing is constructed where one lives. -/
def step (packets : κ → PacketTypes) : ThreadOp κ → ThreadState target κ × List (ThreadEvent κ)
  | .construct id kind =>
    match s.objects id with
    | some _ => (s, [])
    | none =>
      (bind { s with objects := Function.update s.objects id (some ⟨kind, .init target (packets kind)⟩) } id kind,
        [.bound id kind])
  | .bindToCurrentThread id =>
    match s.objects id with
    | none => (s, [])
    | some o => (s.bind id o.kind, [.bound id o.kind])
  | .destroy id =>
    match s.objects id with
    | none => (s, [])
    | some o => (s.destroy id o.kind, [.destroyed id o.kind])
  | .receive id op =>
    match s.objects id with
    | none => (s, [])
    | some o =>
      let r := (receiver target (packets o.kind)).step o.rx op
      ({ s with objects := Function.update s.objects id (some { o with rx := r.1 }) }, r.2.map (s.pass id))

end ThreadState

/-- A thread, on which a stack of a type has the packet types `packets`. -/
def thread (target : Target) {κ : Type} [DecidableEq κ] (packets : κ → PacketTypes) :
    Machine (ThreadState target κ) (ThreadOp κ) (ThreadEvent κ) where
  step s := s.step packets

/-! ### What a log says -/

namespace ThreadEvent

variable {κ : Type}

def bound? : ThreadEvent κ → Option (StackId × κ)
  | .bound id kind => some (id, kind)
  | _ => none

/-- Neither a binding nor a destruction. -/
def Quiet : ThreadEvent κ → Prop
  | .bound _ _ => False
  | .destroyed _ _ => False
  | _ => True

end ThreadEvent

section Logs

variable {κ : Type}

/-- The stack most recently constructed or bound. -/
def lastBound (log : List (ThreadEvent κ)) : Option (StackId × κ) := (log.filterMap ThreadEvent.bound?).getLast?

/-- The stack most recently constructed or bound among those of a type. -/
def lastBoundOf [DecidableEq κ] (kind : κ) (log : List (ThreadEvent κ)) : Option StackId :=
  (((log.filterMap ThreadEvent.bound?).filter fun b => b.2 = kind).getLast?).map Prod.fst

/-- Since the last construction or binding, no stack has been destroyed that was the latest of its type. -/
def Undisturbed [DecidableEq κ] (log : List (ThreadEvent κ)) : Prop :=
  ∀ pre id kind post, log = pre ++ .destroyed id kind :: post → (∀ id' kind', ThreadEvent.bound id' kind' ∉ post) →
    lastBoundOf kind pre ≠ some id

variable {log : List (ThreadEvent κ)} {id : StackId} {kind kind' : κ}

theorem lastBound_bound : lastBound (log ++ [.bound id kind]) = some (id, kind) := by
  simp [lastBound, ThreadEvent.bound?]

theorem lastBound_destroyed : lastBound (log ++ [.destroyed id kind]) = lastBound log := by
  simp [lastBound, ThreadEvent.bound?]

theorem filterMap_quiet {ev : List (ThreadEvent κ)} (quiet : ∀ e ∈ ev, e.Quiet) :
    ev.filterMap ThreadEvent.bound? = [] := by
  rw [List.filterMap_eq_nil_iff]
  intro e member
  cases e with
  | bound id kind => exact (quiet _ member).elim
  | destroyed id kind | handled source handler c | dropped source c | received id e => rfl

theorem lastBound_quiet {ev : List (ThreadEvent κ)} (quiet : ∀ e ∈ ev, e.Quiet) :
    lastBound (log ++ ev) = lastBound log := by
  rw [lastBound, List.filterMap_append, filterMap_quiet quiet, List.append_nil]
  rfl

theorem ThreadState.pass_quiet {target : Target} (s : ThreadState target κ) (id : StackId) (e : RxEvent) :
    (s.pass id e).Quiet := by
  cases e with
  | call c =>
    simp only [ThreadState.pass, ThreadState.dispatch]
    split
    · trivial
    · split <;> trivial
  | fed data accepted | pushed data | lost data | dma data => trivial

variable [DecidableEq κ]

theorem lastBoundOf_bound : lastBoundOf kind (log ++ [.bound id kind]) = some id := by
  simp [lastBoundOf, ThreadEvent.bound?]

theorem lastBoundOf_bound_ne (other : kind' ≠ kind) :
    lastBoundOf kind' (log ++ [.bound id kind]) = lastBoundOf kind' log := by
  simp [lastBoundOf, ThreadEvent.bound?, Ne.symm other]

theorem lastBoundOf_destroyed : lastBoundOf kind' (log ++ [.destroyed id kind]) = lastBoundOf kind' log := by
  rw [lastBoundOf, List.filterMap_append, List.filterMap_cons_none rfl, List.filterMap_nil, List.append_nil]
  rfl

/-- The most recent stack is the latest of its type. -/
theorem lastBoundOf_of_lastBound (last : lastBound log = some (id, kind)) : lastBoundOf kind log = some id := by
  obtain ⟨front, split⟩ := List.getLast?_eq_some_iff.mp last
  simp [lastBoundOf, split]

theorem lastBoundOf_quiet {ev : List (ThreadEvent κ)} (quiet : ∀ e ∈ ev, e.Quiet) :
    lastBoundOf kind (log ++ ev) = lastBoundOf kind log := by
  rw [lastBoundOf, List.filterMap_append, filterMap_quiet quiet, List.append_nil]
  rfl

theorem undisturbed_bound : Undisturbed (log ++ [.bound id kind]) := by
  intro pre id' kind' post split none
  rcases List.eq_nil_or_concat post with rfl | ⟨post', e, rfl⟩
  · have last := congrArg List.getLast? split
    simp at last
  · have last := congrArg List.getLast? split
    simp only [List.concat_eq_append] at last none
    rw [List.getLast?_concat, ← List.cons_append, ← List.append_assoc, List.getLast?_concat] at last
    rw [← Option.some.inj last] at none
    exact absurd (List.mem_append_right _ List.mem_cons_self) (none id kind)

theorem undisturbed_snoc {e : ThreadEvent κ} (unbound : ∀ id kind, e ≠ .bound id kind) :
    Undisturbed (log ++ [e]) ↔ Undisturbed log ∧ ∀ id kind, e = .destroyed id kind →
      lastBoundOf kind log ≠ some id := by
  constructor
  · intro calm
    constructor
    · rintro pre id kind post rfl none
      apply calm pre id kind (post ++ [e])
      · simp
      · intro id' kind' member
        rcases List.mem_append.mp member with old | new
        · exact none id' kind' old
        · exact unbound id' kind' (List.mem_singleton.mp new).symm
    · rintro id kind rfl
      exact calm log id kind [] rfl fun _ _ member => by cases member
  · rintro ⟨calm, here⟩ pre id kind post split none
    rcases List.eq_nil_or_concat post with rfl | ⟨post', e', rfl⟩
    · obtain ⟨rfl, same⟩ := List.append_inj' split rfl
      exact here id kind (List.singleton_inj.mp same)
    · rw [List.concat_eq_append, ← List.cons_append, ← List.append_assoc] at split
      obtain ⟨rfl, -⟩ := List.append_inj' split rfl
      apply calm pre id kind post' rfl
      intro id' kind' member
      apply none id' kind'
      rw [List.concat_eq_append]
      exact List.mem_append_left _ member

theorem undisturbed_destroyed :
    Undisturbed (log ++ [.destroyed id kind]) ↔ Undisturbed log ∧ lastBoundOf kind log ≠ some id := by
  rw [undisturbed_snoc (fun _ _ same => by cases same)]
  constructor
  · rintro ⟨calm, here⟩
    exact ⟨calm, here id kind rfl⟩
  · rintro ⟨calm, here⟩
    refine ⟨calm, fun id' kind' same => ?_⟩
    cases same
    exact here

theorem undisturbed_quiet {ev : List (ThreadEvent κ)} (quiet : ∀ e ∈ ev, e.Quiet) :
    Undisturbed (log ++ ev) ↔ Undisturbed log := by
  induction ev using List.reverseRecOn with
  | nil => rw [List.append_nil]
  | append_singleton ev e ih =>
    have last : e.Quiet := quiet e (List.mem_append_right _ List.mem_cons_self)
    rw [← List.append_assoc, undisturbed_snoc, ih fun e' member => quiet e' (List.mem_append_left _ member)]
    · constructor
      · exact fun calm => calm.1
      · intro calm
        refine ⟨calm, fun id kind same => ?_⟩
        rw [same] at last
        exact last.elim
    · intro id kind same
      rw [same] at last
      exact last.elim

end Logs

/-! ### The pointers and the history -/

section Wiring

variable {target : Target} {κ : Type} [DecidableEq κ] {s : ThreadState target κ} {log : List (ThreadEvent κ)}

/-- What the pointers say about the past. -/
structure Wired (s : ThreadState target κ) (log : List (ThreadEvent κ)) : Prop where
  /-- An instance lives, and is the latest of its type. -/
  instanceOf : ∀ kind id, s.instanceOf kind = some id ↔
    lastBoundOf kind log = some id ∧ ∃ o, s.objects id = some o ∧ o.kind = kind
  kind : ∀ id kind o, lastBound log = some (id, kind) → s.objects id = some o → o.kind = kind
  wired : Undisturbed log → s.onPacket = (lastBound log).map Prod.snd
  cleared : ¬ Undisturbed log → s.onPacket = none

theorem wired_init : Wired ({} : ThreadState target κ) [] where
  instanceOf := by
    intro kind id
    constructor
    · intro set
      cases set
    · rintro ⟨last, -⟩
      cases last
  kind := by
    intro id kind o last
    cases last
  wired := fun _ => rfl
  cleared := fun _ => rfl

theorem Wired.bound (w : Wired s log) {id : StackId} {kind : κ} {objects : StackId → Option (StackObject target κ)}
    (lives : ∃ o, objects id = some o ∧ o.kind = kind) (others : ∀ id' ≠ id, objects id' = s.objects id')
    (same : ∀ o, s.objects id = some o → o.kind = kind) :
    Wired (ThreadState.bind { s with objects := objects } id kind) (log ++ [.bound id kind]) where
  instanceOf := by
    intro kind' id'
    obtain ⟨o, here, rfl⟩ := lives
    by_cases own : kind' = o.kind
    · subst own
      simp only [ThreadState.bind, Function.update_self, lastBoundOf_bound, Option.some.injEq]
      constructor
      · rintro rfl
        exact ⟨rfl, o, here, rfl⟩
      · exact fun h => h.1
    · simp only [ThreadState.bind, Function.update_of_ne own, lastBoundOf_bound_ne own]
      rw [w.instanceOf]
      by_cases there : id' = id
      · subst there
        constructor
        · rintro ⟨-, o', there, rfl⟩
          exact absurd (same o' there) own
        · rintro ⟨-, o', there, rfl⟩
          rw [here] at there
          exact absurd (congrArg StackObject.kind (Option.some.inj there)).symm own
      · rw [others id' there]
  kind := by
    intro id' kind' o' last there
    rw [lastBound_bound] at last
    obtain ⟨o, here, rfl⟩ := lives
    cases last
    rw [← Option.some.inj (here.symm.trans there)]
  wired := by
    intro _
    rw [lastBound_bound]
    rfl
  cleared := fun disturbed => absurd undisturbed_bound disturbed

theorem Wired.destroyed (w : Wired s log) {id : StackId} {o : StackObject target κ} (live : s.objects id = some o) :
    Wired (s.destroy id o.kind) (log ++ [.destroyed id o.kind]) := by
  have objects : (s.destroy id o.kind).objects = Function.update s.objects id none := by
    unfold ThreadState.destroy
    split <;> rfl
  have gone : (s.destroy id o.kind).objects id = none := by rw [objects, Function.update_self]
  have others {id' : StackId} (ne : id' ≠ id) : (s.destroy id o.kind).objects id' = s.objects id' := by
    rw [objects, Function.update_of_ne ne]
  have instance_iff : s.instanceOf o.kind = some id ↔ lastBoundOf o.kind log = some id := by
    rw [w.instanceOf]
    exact ⟨fun h => h.1, fun h => ⟨h, o, live, rfl⟩⟩
  constructor
  · intro kind' id'
    rw [lastBoundOf_destroyed]
    by_cases dead : id' = id
    · subst dead
      constructor
      · intro set
        exfalso
        unfold ThreadState.destroy at set
        split at set
        · by_cases own : kind' = o.kind
          · subst own
            simp [Function.update_self] at set
          · simp only [Function.update_of_ne own] at set
            obtain ⟨-, o', there, rfl⟩ := (w.instanceOf _ _).mp set
            rw [live] at there
            exact own (congrArg StackObject.kind (Option.some.inj there)).symm
        · rename_i notInstance
          obtain ⟨-, o', there, rfl⟩ := (w.instanceOf _ _).mp set
          rw [live] at there
          rw [← Option.some.inj there] at set
          exact notInstance set
      · rintro ⟨-, o', there, -⟩
        rw [gone] at there
        cases there
    · rw [others dead, ← w.instanceOf]
      unfold ThreadState.destroy
      split
      · rename_i set
        by_cases own : kind' = o.kind
        · subst own
          rw [set]
          simp [Ne.symm dead]
        · simp only [Function.update_of_ne own]
      · rfl
  · intro id' kind' o' last there
    rw [lastBound_destroyed] at last
    by_cases dead : id' = id
    · rw [dead, gone] at there
      cases there
    · rw [others dead] at there
      exact w.kind id' kind' o' last there
  · intro calm
    obtain ⟨before, spared⟩ := undisturbed_destroyed.mp calm
    rw [lastBound_destroyed, ← w.wired before]
    unfold ThreadState.destroy
    rw [if_neg (fun set => spared (instance_iff.mp set))]
  · intro disturbed
    unfold ThreadState.destroy
    split
    · rfl
    · rename_i notInstance
      apply w.cleared
      intro calm
      exact disturbed (undisturbed_destroyed.mpr ⟨calm, fun last => notInstance (instance_iff.mpr last)⟩)

theorem Wired.quiet (w : Wired s log) {id : StackId} {o o' : StackObject target κ} (live : s.objects id = some o)
    (kind : o'.kind = o.kind) {ev : List (ThreadEvent κ)} (quiet : ∀ e ∈ ev, e.Quiet) :
    Wired { s with objects := Function.update s.objects id (some o') } (log ++ ev) := by
  constructor
  · intro kind' id'
    rw [lastBoundOf_quiet quiet]
    show s.instanceOf kind' = some id' ↔ _
    rw [w.instanceOf]
    by_cases there : id' = id
    · subst there
      simp only [live, Function.update_self, Option.some.injEq, exists_eq_left', kind]
    · simp only [Function.update_of_ne there]
  · intro id' kind' o'' last there
    rw [lastBound_quiet quiet] at last
    by_cases same : id' = id
    · subst same
      simp only [Function.update_self, Option.some.injEq] at there
      rw [← there, kind]
      exact w.kind _ _ o last live
    · simp only [Function.update_of_ne same] at there
      exact w.kind _ _ o'' last there
  · rw [undisturbed_quiet quiet, lastBound_quiet quiet]
    exact w.wired
  · rw [undisturbed_quiet quiet]
    exact w.cleared

/-- **Every run** keeps the pointers to what its history says. -/
theorem wired_run (packets : κ → PacketTypes) (ops : List (ThreadOp κ)) :
    Wired ((thread target packets).exec {} ops) ((thread target packets).trace {} ops) := by
  apply (thread target packets).run_invariant_always wired_init
  intro s log o w
  cases o with
  | construct id kind =>
    simp only [thread, ThreadState.step]
    split
    next => rwa [List.append_nil]
    next free =>
      apply w.bound
      · exact ⟨_, Function.update_self .., rfl⟩
      · exact fun _ ne => Function.update_of_ne ne ..
      · intro o live
        rw [free] at live
        cases live
  | bindToCurrentThread id =>
    simp only [thread, ThreadState.step]
    split
    next => rwa [List.append_nil]
    next o live =>
      apply w.bound
      · exact ⟨o, live, rfl⟩
      · exact fun _ _ => rfl
      · intro o' live'
        rw [← Option.some.inj (live.symm.trans live')]
  | destroy id =>
    simp only [thread, ThreadState.step]
    split
    next => rwa [List.append_nil]
    next o live => exact w.destroyed live
  | receive id op =>
    simp only [thread, ThreadState.step]
    split
    next => rwa [List.append_nil]
    next o live =>
      refine w.quiet live ?_ ?_
      · rfl
      · intro e member
        obtain ⟨r, -, rfl⟩ := List.mem_map.mp member
        exact s.pass_quiet id r

end Wiring

/-! ### Whose packets go where -/

section Routing

variable {target : Target} {κ : Type} [DecidableEq κ] (packets : κ → PacketTypes)

/-- An event of the stream of `id` is not a packet that goes astray. -/
def ThreadEvent.Own (id : StackId) : ThreadEvent κ → Prop
  | .handled source handler _ => source = id ∧ handler = id
  | .dropped _ _ => False
  | _ => True

/-- The stack lives, and is the one most recently constructed or bound on the thread. -/
def MostRecent (target : Target) (packets : κ → PacketTypes) (ops : List (ThreadOp κ)) (id : StackId) : Prop :=
  (∃ kind, lastBound ((thread target packets).trace {} ops) = some (id, kind)) ∧
    (((thread target packets).exec {} ops).objects id).isSome

/-- An operation on the stack in which a frame of its stream is parsed. -/
def Parses (packets : κ → PacketTypes) (s : ThreadState target κ) (id : StackId) (op : RxOp) : Prop :=
  ∃ o, s.objects id = some o ∧ ∃ c, RxEvent.call c ∈ ((receiver target (packets o.kind)).step o.rx op).2

/-- Nobody steals, loses or outlives a packet of the thread. -/
structure Separated (target : Target) (packets : κ → PacketTypes) (ops : List (ThreadOp κ)) : Prop where
  /-- What is parsed for the most recent stack is passed to it. -/
  own : ∀ pre id op post, ops = pre ++ .receive id op :: post → MostRecent target packets pre id →
    ∀ e ∈ (((thread target packets).exec {} pre).step packets (.receive id op)).2, e.Own id
  /-- What is handled is handled by a stack that lives. -/
  alive : ∀ pre op post source handler c, ops = pre ++ op :: post →
    .handled source handler c ∈ (((thread target packets).exec {} pre).step packets op).2 →
    (((thread target packets).exec {} pre).objects handler).isSome

variable {packets} {s : ThreadState target κ} {log : List (ThreadEvent κ)} {id : StackId} {kind : κ}
  {o : StackObject target κ}

/-- A packet of the most recent stack goes to it, if the history is undisturbed. -/
theorem Wired.dispatch_own (w : Wired s log) (last : lastBound log = some (id, kind)) (live : s.objects id = some o)
    (calm : Undisturbed log) (c : Call) : s.dispatch id c = .handled id id c := by
  have hook : s.onPacket = some kind := by
    rw [w.wired calm, last]
    rfl
  have instance_ : s.instanceOf kind = some id :=
    (w.instanceOf kind id).mpr ⟨lastBoundOf_of_lastBound last, o, live, w.kind id kind o last live⟩
  rw [ThreadState.dispatch, hook]
  simp only [instance_]

theorem Wired.dispatch_dropped (w : Wired s log) (disturbed : ¬ Undisturbed log) (c : Call) :
    s.dispatch id c = .dropped id c := by
  rw [ThreadState.dispatch, w.cleared disturbed]

/-- Only a live stack handles. -/
theorem Wired.alive (w : Wired s log) {source handler : StackId} {c : Call} {op : ThreadOp κ}
    (handled : .handled source handler c ∈ (s.step packets op).2) : (s.objects handler).isSome := by
  cases op with
  | construct id kind | bindToCurrentThread id | destroy id =>
    simp only [ThreadState.step] at handled
    split at handled
    · cases handled
    · cases List.mem_singleton.mp handled
  | receive id op =>
    simp only [ThreadState.step] at handled
    split at handled
    · cases handled
    obtain ⟨e, -, passed⟩ := List.mem_map.mp handled
    cases e with
    | call c' =>
      simp only [ThreadState.pass, ThreadState.dispatch] at passed
      split at passed
      · cases passed
      · split at passed
        · cases passed
        · rename_i _ kind _ _ handler' set
          cases passed
          obtain ⟨-, o, live, -⟩ := (w.instanceOf kind handler).mp set
          rw [live]
          rfl
    | fed data accepted | pushed data | lost data | dma data => cases passed

/-- **Whose packets are lost.** A live stack that is the one most recently constructed or bound gets
every packet of its stream exactly in the runs in which, whenever one of its frames is parsed, no
stack that was the latest of its type has been destroyed since. -/
theorem routing_iff {target : Target} {κ : Type} [DecidableEq κ] (packets : κ → PacketTypes) (ops : List (ThreadOp κ)) :
    Separated target packets ops ↔ ∀ pre id op post, ops = pre ++ .receive id op :: post →
      MostRecent target packets pre id → Parses packets ((thread target packets).exec {} pre) id op →
      Undisturbed ((thread target packets).trace {} pre) := by
  constructor
  · intro separated pre id op post split recent parses
    have w : Wired ((thread target packets).exec {} pre) ((thread target packets).trace {} pre) := wired_run packets pre
    obtain ⟨o, live, c, parsed⟩ := parses
    by_contra disturbed
    have own := separated.own pre id op post split recent (.dropped id c)
    apply own
    simp only [ThreadState.step, live]
    rw [← w.dispatch_dropped disturbed]
    exact List.mem_map.mpr ⟨_, parsed, rfl⟩
  · intro calm
    constructor
    · intro pre id op post split recent e member
      have w : Wired ((thread target packets).exec {} pre) ((thread target packets).trace {} pre) :=
        wired_run packets pre
      obtain ⟨kind, last⟩ := recent.1
      obtain ⟨o, live⟩ := Option.isSome_iff_exists.mp recent.2
      simp only [ThreadState.step, live] at member
      obtain ⟨r, received, rfl⟩ := List.mem_map.mp member
      cases r with
      | call c =>
        have undisturbed := calm pre id op post split recent ⟨o, live, c, received⟩
        rw [ThreadState.pass, w.dispatch_own last live undisturbed]
        exact ⟨rfl, rfl⟩
      | fed data accepted | pushed data | lost data | dma data => trivial
    · intro pre op post source handler c _ handled
      exact (wired_run packets pre).alive handled

/-- Two stacks of different types: the first is bound again and the second destroyed, and the first
loses its ACK. -/
theorem bound_stack_loses_packet :
    let packets : Bool → PacketTypes := fun arm => if arm then Arm.armPackets else Arm.receiveSerial
    ¬ Separated ⟨32, by decide, fun _ => 0⟩ packets [.construct 0 true, .construct 1 false, .bindToCurrentThread 0,
      .destroy 1, .receive 0 (.dma (frameBytes 7 0x6FF0 [1, 0, 0, 0, 0x03, 0x61, 0]))] := by
  intro packets separated
  have recent : MostRecent ⟨32, by decide, fun _ => 0⟩ packets
      [.construct 0 true, .construct 1 false, .bindToCurrentThread 0, .destroy 1] 0 :=
    ⟨⟨true, by decide +kernel⟩, by decide +kernel⟩
  have astray := separated.own [.construct 0 true, .construct 1 false, .bindToCurrentThread 0, .destroy 1] 0
    (.dma (frameBytes 7 0x6FF0 [1, 0, 0, 0, 0x03, 0x61, 0])) [] rfl recent
    (.dropped 0 (.packet 0x6FF0 [1, 0, 0, 0, 0x03, 0x61, 0])) (by decide +kernel)
  exact astray

end Routing

end FloridUsb.Stack
